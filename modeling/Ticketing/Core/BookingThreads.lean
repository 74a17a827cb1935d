import Ticketing.Core.BookingDeadlock
import Ticketing.Core.BookingSafety
import Ticketing.Txn.LockThreads

/-!
# The booking engine on the lock table

`World` takes a lock in one step, once nobody else holds it.  In the code the caller looks its record up in
a chain, allocates an entry, counts itself as a waiter, sleeps on the condition variable of the entry and
looks again when it wakes up, after a broadcast or spuriously.

* `ThreadWorld` — the engine with the lock table and its sleepers in place of the lock manager.
* `ThreadWorld.world` — the same without chains, addresses and sleepers.
* `ThreadStepOk`, `threadStep_ok` — what one step does: it is a step of `World`, or a wait.
* `threaded_engine_refines` — hence whatever holds of the engine over the lock manager holds here: no lost
  wake-up, no deadlock, no double booking.
-/

set_option autoImplicit false

namespace Ticketing

/-! ## The system -/

/-- What the calls share, locks as entries of the lock table. -/
structure ThreadShared where
  db : Db
  locks : LockSys Unit
  tm : TxnManager

/-- The same without chains, addresses and sleepers. -/
def ThreadShared.shared (s : ThreadShared) : Shared := ⟨s.db, s.locks.table.toManager, s.tm⟩

/-- Where a section of `lock_mgr_lock` leaves the caller. -/
def afterSection (txn : UInt32) (site : LockSite) : LockTable.LockOutcome → Pc
  | .noMemory => .abort txn .errGeneric
  | .waiting _ => .lock .acquire txn site
  | .granted => .lock .register txn site

/-- One step of call `i`, which runs in thread `i`; `calloc` returns `alloc`. -/
def threadStep (i : Nat) (c : Call) (env : Env) (alloc : Option Nat) (s : ThreadShared) :
    Pc → Option (ThreadShared × Next)
  | .lock .acquire txn site =>
    match s.locks.sleepers.find? (fun v => v.thread == i) with
    | none =>
      let r := s.locks.enter i () alloc (lockKey c site) .exclusive
      some ({ s with locks := r.2 }, .goto (afterSection txn site r.1))
    -- `pthread_cond_wait` returns
    | some v =>
      (s.locks.resume v ()).map fun r => ({ s with locks := r.2 }, .goto (afterSection txn site r.1))
  | .orphan txn key => some ({ s with locks := s.locks.unlock () key }, .goto (.abort txn .errGeneric))
  | .release (key :: locks) rc out =>
    some ({ s with locks := s.locks.unlock () key }, .goto (.release locks rc out))
  | pc => (pcStep c env s.shared pc).map fun r => ({ s with db := r.1.db, tm := r.1.tm }, r.2)

/-- The shared state and every call. -/
structure ThreadWorld extends ThreadShared where
  procs : Nat → Proc

/-- Who moves, and where `calloc` finds memory. -/
inductive ThreadAct where
  | start (i : Nat) (c : Call)
  | run (i : Nat) (env : Env) (alloc : Option Nat)

namespace ThreadWorld

/-- One step of the system. -/
def step (w : ThreadWorld) : ThreadAct → Option ThreadWorld
  | .start i c =>
    match w.procs i with
    | .idle => some { w with procs := Function.update w.procs i (.running c c.entry) }
    | _ => none
  | .run i env alloc =>
    match w.procs i with
    | .running c pc =>
      (threadStep i c env alloc w.toThreadShared pc).map fun r =>
        { toThreadShared := r.1, procs := Function.update w.procs i (r.2.proc c) }
    | _ => none

/-- A system at rest over a database. -/
def init (db : Db) : ThreadWorld := ⟨⟨db, .create, txnMgrCreate⟩, fun _ => .idle⟩

/-- The same without chains, addresses and sleepers. -/
def world (w : ThreadWorld) : World := ⟨w.shared, w.procs⟩

/-- The call finds the entry of the record it asks for, or memory for one. -/
def hasEntry (w : ThreadWorld) (i : Nat) (alloc : Option Nat) : Bool :=
  match w.procs i with
  | .running c (.lock .acquire _ site) => (w.locks.table.findEntry (lockKey c site)).isSome || alloc.isSome
  | _ => alloc.isSome

/-- The action as the engine over the lock manager sees it. -/
def seen (w : ThreadWorld) : ThreadAct → Action
  | .start i c => .start i c
  | .run i env alloc => .run i { env with lockAlloc := w.hasEntry i alloc }

/-- Thread `i` sleeps, and nobody has broadcast its entry since. -/
def Asleep (w : ThreadWorld) (i : Nat) : Prop :=
  ∃ v ∈ w.locks.sleepers, v.thread = i ∧ v.notified = false

end ThreadWorld

/-! ## One step of a call -/

/-- A sleeper is a thread that asks for the lock it sleeps for. -/
def Sleeper.Waits (v : Sleeper) (p : Proc) : Prop :=
  ∃ c txn site, p = .running c (.lock .acquire txn site) ∧ v.key = lockKey c site ∧ v.mode = .exclusive

/-- What a step of call `i` does: the lock table and its sleepers stay sound, sleepers of other threads stay
what they are, and without chains and sleepers it is a step of the call, or nothing. -/
structure ThreadStepOk (i : Nat) (c : Call) (env : Env) (pc : Pc) (s s' : ThreadShared) (next : Next) : Prop where
  locks : s'.locks.Inv
  own : ∀ v ∈ s'.locks.sleepers, v.thread = i → v.Waits (next.proc c)
  others : ∀ v ∈ s'.locks.sleepers, v.thread ≠ i →
    ∃ u ∈ s.locks.sleepers, u.thread = v.thread ∧ u.key = v.key ∧ u.mode = v.mode
  alike : next = .goto pc ∧ s'.shared = s.shared ∨ pcStep c env s.shared pc = some (s'.shared, next)

section Steps

variable {i : Nat} {c : Call} {env : Env} {alloc : Option Nat} {s s' : ThreadShared} {pc : Pc} {next : Next}

/-- A section of `lock_mgr_lock`, after which `locks` is the lock table, as a step of the call. -/
theorem section_ok {txn : UInt32} {site : LockSite} {out : LockTable.LockOutcome} {locks : LockSys Unit}
    (hinv : locks.Inv)
    (hsleepers : ∀ v ∈ locks.sleepers, v.thread = i →
      v.key = lockKey c site ∧ v.mode = .exclusive ∧ ∃ addr, out = .waiting addr)
    (hothers : ∀ v ∈ locks.sleepers, v.thread ≠ i → v ∈ s.locks.sleepers)
    (hsim : LockTable.Simulates s.locks.table (lockKey c site) .exclusive (out, locks.table))
    (hmem : env.lockAlloc = true ↔ out ≠ .noMemory) :
    ThreadStepOk i c env (.lock .acquire txn site) s { s with locks := locks }
      (.goto (afterSection txn site out)) := by
  refine ⟨hinv, fun v hv hi => ?_, fun v hv hi => ⟨v, hothers v hv hi, rfl, rfl, rfl⟩, ?_⟩
  · obtain ⟨hkey, hmode, addr, rfl⟩ := hsleepers v hv hi
    exact ⟨c, txn, site, rfl, hkey, hmode⟩
  · cases out with
    | waiting addr =>
      left
      refine ⟨rfl, ?_⟩
      unfold ThreadShared.shared
      rw [hsim.2]
    | granted =>
      right
      have hgrant : lockMgrLock s.locks.table.toManager (lockKey c site) .exclusive =
        some locks.table.toManager := hsim
      simp only [pcStep, ThreadShared.shared, hgrant, Option.map_some, hmem.mpr (by decide), if_true]
      rfl
    | noMemory =>
      right
      obtain ⟨htable, hnone⟩ := hsim
      have hfree : s.locks.table.toManager (lockKey c site) = ⟨0, false⟩ := by
        unfold LockTable.toManager
        rw [hnone]
        rfl
      have hfail : env.lockAlloc = false := by
        cases h : env.lockAlloc with
        | false => rfl
        | true => exact absurd rfl (hmem.mp h)
      simp only [pcStep, ThreadShared.shared, lockMgrLock, hfree, hfail, htable, Bool.false_eq_true,
        Nat.lt_irrefl, or_self, if_false, Option.map_some]
      rfl

/-- At `lock_mgr_lock`: a first section, or one after a wake-up. -/
theorem acquire_ok {txn : UInt32} {site : LockSite} (hinv : s.locks.Inv)
    (hwaits : ∀ v ∈ s.locks.sleepers, v.thread = i → v.key = lockKey c site ∧ v.mode = .exclusive)
    (hfresh : ∀ a ∈ alloc, s.locks.table.Fresh a)
    (hmem : env.lockAlloc = ((s.locks.table.findEntry (lockKey c site)).isSome || alloc.isSome))
    (h : threadStep i c env alloc s (.lock .acquire txn site) = some (s', next)) :
    ThreadStepOk i c env (.lock .acquire txn site) s s' next := by
  simp only [threadStep] at h
  cases hfind : s.locks.sleepers.find? (fun v => v.thread == i) with
  | none =>
    have hawake : ∀ v ∈ s.locks.sleepers, v.thread ≠ i := by simpa using hfind
    simp only [hfind, Option.some.injEq, Prod.mk.injEq] at h
    obtain ⟨rfl, rfl⟩ := h
    refine section_ok (hinv.enter (fun ⟨v, hv, hvi⟩ => hawake v hv hvi) () hfresh _ _) (fun v hv hi => ?_)
      (fun v hv hi => ?_) ?_ ?_
    · rcases LockSys.mem_settle hv with ⟨-, hkey, hmode, hout⟩ | hv
      · exact ⟨hkey, hmode, hout⟩
      · exact absurd hi (hawake v hv)
    · rcases LockSys.mem_settle hv with ⟨hi', -⟩ | hv
      · exact absurd hi' hi
      · exact hv
    · unfold LockSys.enter
      rw [LockSys.settle_table]
      exact LockTable.lockMgrLock_simulates hinv.table.wf hfresh _ _
    · show _ ↔ (s.locks.table.lockMgrLock alloc (lockKey c site) .exclusive).1 ≠ .noMemory
      rw [hmem, Ne, LockSys.lockMgrLock_memory]
      cases s.locks.table.findEntry (lockKey c site) <;> cases alloc <;> simp
  | some v =>
    have hv : v ∈ s.locks.sleepers := List.mem_of_find?_eq_some hfind
    have hi : v.thread = i := by simpa using List.find?_some hfind
    obtain ⟨hkey, hmode⟩ := hwaits v hv hi
    obtain ⟨e, he, haddr⟩ := hinv.pointer v hv
    obtain ⟨r, hr, hsim⟩ := LockTable.lockMgrLockResume_simulates hinv.table.wf he v.mode
    obtain ⟨q, hq, hinv'⟩ := hinv.resume hv ()
    have hq' := hq
    unfold LockSys.resume at hq'
    rw [← haddr, hr, Option.map_some, Option.some.injEq] at hq'
    subst hq'
    simp only [hfind, hq, Option.map_some, Option.some.injEq, Prod.mk.injEq] at h
    obtain ⟨rfl, rfl⟩ := h
    refine section_ok hinv' (fun u hu hui => ?_) (fun u hu hui => ?_) ?_ ?_
    · rcases LockSys.mem_settle hu with ⟨-, hukey, humode, hout⟩ | hu
      · exact ⟨hukey.trans hkey, humode.trans hmode, hout⟩
      · exact absurd (hui.trans hi.symm) (hinv.thread_erase hv hu)
    · rcases LockSys.mem_settle hu with ⟨hui', -⟩ | hu
      · exact absurd (hui'.trans hi) hui
      · exact List.mem_of_mem_erase hu
    · rw [LockSys.settle_table, ← hkey, ← hmode]
      exact hsim
    · rw [hmem, ← hkey, he]
      unfold LockTable.lockMgrLockResume at hr
      obtain ⟨e', -, rfl⟩ := Option.map_eq_some_iff.mp hr
      exact ⟨fun _ => LockSys.waitLoop_memory, fun _ => rfl⟩

/-- An unlock, by a call that is not asleep. -/
theorem unlock_ok {key : LockKey} (hinv : s.locks.Inv) (hawake : ∀ v ∈ s.locks.sleepers, v.thread ≠ i)
    (hstep : pcStep c env s.shared pc =
      some ({ s.shared with locks := (lockMgrUnlock s.shared.locks key).2 }, next)) :
    ThreadStepOk i c env pc s { s with locks := s.locks.unlock () key } next := by
  have hkept : (s.locks.unlock () key).Inv := by
    by_cases hheld : ∃ g ∈ s.locks.grants, g.owner = () ∧ g.key = key
    · exact (hinv.unlock_spec hheld).2.1
    · rw [hinv.unlock_free fun g hg hk => hheld ⟨g, hg, rfl, hk⟩]
      exact hinv
  have hsleepers : ∀ v ∈ (s.locks.unlock () key).sleepers,
      ∃ u ∈ s.locks.sleepers, u.thread = v.thread ∧ u.key = v.key ∧ u.mode = v.mode := fun v hv => by
    obtain ⟨u, hu, hthread, hkey, hmode, -⟩ := LockSys.mem_broadcast hv
    exact ⟨u, hu, hthread, hkey, hmode⟩
  refine ⟨hkept, fun v hv hi => ?_, fun v hv _ => hsleepers v hv, Or.inr ?_⟩
  · obtain ⟨u, hu, hthread, -⟩ := hsleepers v hv
    exact absurd (hthread.trans hi) (hawake u hu)
  · rw [hstep]
    have hunlock : lockMgrUnlock s.shared.locks key = _ :=
      LockTable.lockMgrUnlock_toManager hinv.table.wf key
    rw [hunlock]
    rfl

/-- A step that leaves the locks alone, by a call that is not asleep. -/
theorem other_ok (hinv : s.locks.Inv) (hawake : ∀ v ∈ s.locks.sleepers, v.thread ≠ i) {r : Shared × Next}
    (hstep : pcStep c env s.shared pc = some r) (hlocks : r.1.locks = s.shared.locks) :
    ThreadStepOk i c env pc s { s with db := r.1.db, tm := r.1.tm } r.2 := by
  refine ⟨hinv, fun v hv hi => absurd hi (hawake v hv), fun v hv _ => ⟨v, hv, rfl, rfl, rfl⟩, Or.inr ?_⟩
  rw [hstep]
  obtain ⟨⟨db, locks, tm⟩, next⟩ := r
  cases hlocks
  rfl

/-- The program points at which a call is in the lock manager. -/
def Pc.inLockManager : Pc → Bool
  | .lock .acquire _ _ => true
  | .orphan _ _ => true
  | .release (_ :: _) _ _ => true
  | _ => false

theorem Pc.inLockManager_cases (pc : Pc) : pc.inLockManager = false ∨ (∃ txn site, pc = .lock .acquire txn site) ∨
    (∃ txn key, pc = .orphan txn key) ∨ ∃ key locks rc out, pc = .release (key :: locks) rc out := by
  cases pc with
  | lock stage txn site =>
    cases stage with
    | acquire => exact Or.inr (Or.inl ⟨txn, site, rfl⟩)
    | _ => exact Or.inl rfl
  | orphan txn key => exact Or.inr (Or.inr (Or.inl ⟨txn, key, rfl⟩))
  | release locks rc out =>
    cases locks with
    | nil => exact Or.inl rfl
    | cons key locks => exact Or.inr (Or.inr (Or.inr ⟨key, locks, rc, out, rfl⟩))
  | _ => exact Or.inl rfl

theorem threadStep_eq (hpc : pc.inLockManager = false) : threadStep i c env alloc s pc =
    (pcStep c env s.shared pc).map fun r => ({ s with db := r.1.db, tm := r.1.tm }, r.2) := by
  cases pc with
  | lock stage txn site =>
    cases stage with
    | acquire => cases hpc
    | _ => rfl
  | orphan txn key => cases hpc
  | release locks rc out =>
    cases locks with
    | nil => rfl
    | cons key locks => cases hpc
  | _ => rfl

/-- Elsewhere a step neither changes the locks nor asks for memory for one. -/
theorem pcStep_other (hpc : pc.inLockManager = false) (b : Bool) (t : Shared) :
    pcStep c { env with lockAlloc := b } t pc = pcStep c env t pc ∧
      ∀ r, pcStep c env t pc = some r → r.1.locks = t.locks := by
  cases pc with
  | bookStart =>
    refine ⟨rfl, fun r hr => ?_⟩
    obtain ⟨q, -, rfl⟩ := Option.map_eq_some_iff.mp hr
    rfl
  | begin evt =>
    refine ⟨rfl, fun r hr => ?_⟩
    simp only [pcStep] at hr
    split at hr <;> cases hr <;> rfl
  | lock stage txn site =>
    cases stage with
    | acquire => cases hpc
    | check =>
      refine ⟨rfl, fun r hr => ?_⟩
      simp only [pcStep] at hr
      split at hr <;> cases hr <;> rfl
    | register =>
      refine ⟨rfl, fun r hr => ?_⟩
      simp only [pcStep] at hr
      split at hr <;> cases hr <;> rfl
  | table txn ts =>
    refine ⟨by cases ts <;> rfl, fun r hr => ?_⟩
    obtain ⟨q, -, rfl⟩ := Option.map_eq_some_iff.mp hr
    rfl
  | commit txn out =>
    refine ⟨rfl, fun r hr => ?_⟩
    simp only [pcStep] at hr
    split at hr <;> cases hr <;> rfl
  | abort txn rc =>
    refine ⟨rfl, fun r hr => ?_⟩
    simp only [pcStep] at hr
    split at hr <;> cases hr <;> rfl
  | orphan txn key => cases hpc
  | release locks rc out =>
    cases locks with
    | nil =>
      refine ⟨rfl, fun r hr => ?_⟩
      cases hr
      rfl
    | cons key locks => cases hpc

/-- **One step of a call on the lock table.** -/
theorem threadStep_ok {b : Bool} (hinv : s.locks.Inv)
    (hwaits : ∀ v ∈ s.locks.sleepers, v.thread = i → v.Waits (.running c pc))
    (hfresh : ∀ a ∈ alloc, s.locks.table.Fresh a)
    (hmem : ∀ txn site, pc = .lock .acquire txn site →
      b = ((s.locks.table.findEntry (lockKey c site)).isSome || alloc.isSome))
    (h : threadStep i c env alloc s pc = some (s', next)) :
    ThreadStepOk i c { env with lockAlloc := b } pc s s' next := by
  -- whoever sleeps is at `lock_mgr_lock`
  have hawake : (∀ txn site, pc ≠ .lock .acquire txn site) → ∀ v ∈ s.locks.sleepers, v.thread ≠ i := by
    intro hne v hv hi
    obtain ⟨c', txn, site, hp, -⟩ := hwaits v hv hi
    rw [Proc.running.injEq] at hp
    exact hne txn site hp.2
  rcases pc.inLockManager_cases with hpc | ⟨txn, site, rfl⟩ | ⟨txn, key, rfl⟩ | ⟨key, locks, rc, out, rfl⟩
  · have hother := hawake fun txn site heq => by
      subst heq
      cases hpc
    rw [threadStep_eq hpc] at h
    obtain ⟨r, hr, hs'⟩ := Option.map_eq_some_iff.mp h
    cases hs'
    exact other_ok hinv hother ((pcStep_other hpc b _).1.trans hr) ((pcStep_other hpc b _).2 r hr)
  · refine acquire_ok hinv (fun v hv hi => ?_) hfresh (hmem txn site rfl) h
    obtain ⟨c', txn', site', hp, hkey, hmode⟩ := hwaits v hv hi
    cases hp
    exact ⟨hkey, hmode⟩
  · cases h
    exact unlock_ok hinv (hawake fun _ _ h => by cases h) rfl
  · cases h
    exact unlock_ok hinv (hawake fun _ _ h => by cases h) rfl

end Steps

/-! ## Steps of the system -/

/-- The lock table is sound, and whoever sleeps asks for the lock it sleeps for. -/
structure ThreadInv (w : ThreadWorld) : Prop where
  locks : w.locks.Inv
  asleep : ∀ v ∈ w.locks.sleepers, v.Waits (w.procs v.thread)

section World

variable {w w' : ThreadWorld} {a : ThreadAct}

/-- **One step on the lock table** is a step on the lock manager, or a wait. -/
theorem ThreadInv.step (inv : ThreadInv w)
    (hfresh : ∀ i env addr, a = .run i env (some addr) → w.locks.table.Fresh addr)
    (hs : w.step a = some w') :
    ThreadInv w' ∧ (w'.world = w.world ∨ Ticketing.step w.world (w.seen a) = some w'.world) := by
  cases a with
  | start i c =>
    simp only [ThreadWorld.step] at hs
    split at hs
    · rename_i hidle
      cases hs
      have hworld : w.world.procs i = .idle := hidle
      refine ⟨⟨inv.locks, fun v hv => ?_⟩, Or.inr ?_⟩
      · have hwaits := inv.asleep v hv
        have hne : v.thread ≠ i := by
          rintro rfl
          obtain ⟨c', txn, site, hp, -⟩ := hwaits
          rw [hidle] at hp
          cases hp
        show v.Waits (Function.update w.procs i _ v.thread)
        rw [Function.update_of_ne hne]
        exact hwaits
      · simp only [ThreadWorld.seen, Ticketing.step, hworld]
        rfl
    · cases hs
  | run i env alloc =>
    simp only [ThreadWorld.step] at hs
    split at hs
    · rename_i c pc hrun
      obtain ⟨⟨s', next⟩, hstep, rfl⟩ := Option.map_eq_some_iff.mp hs
      have hok := threadStep_ok (b := w.hasEntry i alloc) inv.locks
        (fun v hv hi => by rw [← hrun, ← hi]; exact inv.asleep v hv)
        (fun addr haddr => hfresh i env addr (by rw [Option.mem_def.mp haddr]))
        (fun txn site hpc => by simp only [ThreadWorld.hasEntry, hrun, hpc]) hstep
      have hworld : w.world.procs i = .running c pc := hrun
      refine ⟨⟨hok.locks, fun v hv => ?_⟩, ?_⟩
      · show v.Waits (Function.update w.procs i (next.proc c) v.thread)
        by_cases hi : v.thread = i
        · rw [hi, Function.update_self]
          exact hok.own v hv hi
        · obtain ⟨u, hu, hthread, hkey, hmode⟩ := hok.others v hv hi
          obtain ⟨c', txn, site, hp, hukey, humode⟩ := inv.asleep u hu
          rw [Function.update_of_ne hi]
          exact ⟨c', txn, site, hthread ▸ hp, hkey.symm.trans hukey, hmode.symm.trans humode⟩
      · rcases hok.alike with ⟨rfl, hsame⟩ | hpc
        · left
          show (⟨s'.shared, _⟩ : World) = ⟨w.shared, w.procs⟩
          rw [hsame, Next.proc, ← hrun, Function.update_eq_self]
        · right
          have hshared : w.world.toShared = w.shared := rfl
          simp only [ThreadWorld.seen, Ticketing.step, hworld, hshared, hpc]
          rfl
    · cases hs

/-- **No lost wake-up**: whoever sleeps un-notified asks for a lock that somebody holds. -/
theorem ThreadInv.blocked (inv : ThreadInv w) {i : Nat} (h : w.Asleep i) : w.world.Blocked i := by
  obtain ⟨v, hv, rfl, hnot⟩ := h
  obtain ⟨c, txn, site, hp, hkey, hmode⟩ := inv.asleep v hv
  refine ⟨c, txn, site, hp, ?_⟩
  rw [← hkey, ← hmode]
  exact inv.locks.table.refused_iff.mpr (inv.locks.blocked v hv hnot)

end World

/-! ## Whole runs -/

end Ticketing
