import Ticketing.Lib.Runs
import Ticketing.Txn.LockTable

/-!
# Threads at the lock manager

The lock table together with what its memory does not say: who answers for each granted lock
(`Grant`), and which threads sleep in `pthread_cond_wait` with a pointer to an entry (`Sleeper`).
A step is a critical section of a bucket mutex; a wait ends by a broadcast or spuriously.

* `LockSys.Inv` and one lemma for each section that it is kept — for any notion of owner.
* `LockSys.step` — threads that call `lock_mgr_lock` and `lock_mgr_unlock` in any order.
* `lock_manager_safe` — only compatible locks are granted and no waiter is lost.
-/

set_option autoImplicit false

namespace Ticketing

/-- A lock that `lock_mgr_lock` granted, and who answers for it. -/
structure Grant (T : Type) where
  owner : T
  key : LockKey
  mode : LockMode
  deriving DecidableEq, Repr

/-- A thread in the wait loop of `lock_mgr_lock`: its request, the entry it points to, and whether
that entry was broadcast since it went to sleep. -/
structure Sleeper where
  thread : Nat
  key : LockKey
  mode : LockMode
  addr : Nat
  notified : Bool
  deriving DecidableEq, Repr

/-- The lock table and the threads that use it. -/
structure LockSys (T : Type) where
  table : LockTable
  grants : List (Grant T)
  sleepers : List Sleeper

namespace LockSys

variable {T : Type}

/-- `lock_mgr_create`. -/
def create : LockSys T := ⟨fun _ => [], [], []⟩

/-- The holders of a record in a mode. -/
def holders (s : LockSys T) (key : LockKey) (mode : LockMode) : Nat :=
  s.grants.countP (fun g => g.key == key && g.mode == mode)

/-- The threads in the wait loop of a record. -/
def waiting (s : LockSys T) (key : LockKey) : Nat := s.sleepers.countP (fun w => w.key == key)

/-- Holders and waiters, record by record. -/
def counts (s : LockSys T) (key : LockKey) : LockTable.Counts :=
  ⟨s.holders key .shared, s.holders key .exclusive, s.waiting key⟩

/-- The thread is in a wait loop. -/
def Asleep (s : LockSys T) (t : Nat) : Prop := ∃ w ∈ s.sleepers, w.thread = t

instance (s : LockSys T) (t : Nat) : Decidable (s.Asleep t) :=
  inferInstanceAs (Decidable (∃ w ∈ s.sleepers, w.thread = t))

/-- Note where thread `t` is after a section of `lock_mgr_lock`. -/
def settle (s : LockSys T) (t : Nat) (owner : T) (key : LockKey) (mode : LockMode) :
    LockTable.LockOutcome × LockTable → LockSys T
  | (.noMemory, tbl) => { s with table := tbl }
  | (.waiting addr, tbl) =>
    { s with table := tbl, sleepers := ⟨t, key, mode, addr, false⟩ :: s.sleepers }
  | (.granted, tbl) => { s with table := tbl, grants := ⟨owner, key, mode⟩ :: s.grants }

/-- Thread `t` calls `lock_mgr_lock` on behalf of `owner`. -/
def enter (s : LockSys T) (t : Nat) (owner : T) (alloc : Option Nat) (key : LockKey)
    (mode : LockMode) : LockTable.LockOutcome × LockSys T :=
  ((s.table.lockMgrLock alloc key mode).1,
    s.settle t owner key mode (s.table.lockMgrLock alloc key mode))

/-- A sleeping thread returns from `pthread_cond_wait`; `none` if its entry is gone. -/
def resume [DecidableEq T] (s : LockSys T) (w : Sleeper) (owner : T) :
    Option (LockTable.LockOutcome × LockSys T) :=
  (s.table.lockMgrLockResume w.key w.addr w.mode).map (fun r =>
    (r.1, { s with sleepers := s.sleepers.erase w }.settle w.thread owner w.key w.mode r))

/-- `pthread_cond_broadcast`. -/
def broadcast (ws : List Sleeper) (entry : Option Nat) : List Sleeper :=
  ws.map (fun w => if entry = some w.addr then { w with notified := true } else w)

/-- `lock_mgr_unlock`, called on behalf of `owner`. -/
def unlock [DecidableEq T] (s : LockSys T) (owner : T) (key : LockKey) : LockSys T :=
  { table := (s.table.lockMgrUnlock key).2.2
    grants := s.grants.eraseP (fun g => g.owner == owner && g.key == key)
    sleepers := broadcast s.sleepers (s.table.lockMgrUnlock key).2.1 }

/-! ## The invariant -/

/-- The table counts the threads; pointers are live; whoever sleeps un-notified has to. -/
structure Inv (s : LockSys T) : Prop where
  table : s.table.Inv s.counts
  pointer : ∀ w ∈ s.sleepers, ∃ e, s.table.findEntry w.key = some e ∧ e.addr = w.addr
  blocked : ∀ w ∈ s.sleepers, w.notified = false → (s.counts w.key).Conflicts w.mode
  threads : (s.sleepers.map Sleeper.thread).Nodup

theorem Inv.create : Inv (create : LockSys T) :=
  ⟨LockTable.Inv.empty, fun _ h => by simp [LockSys.create] at h,
    fun _ h => by simp [LockSys.create] at h, by simp [LockSys.create]⟩

theorem conflicts_grant {c : LockTable.Counts} {m m' : LockMode} (h : c.Conflicts m) :
    (c.grant m').Conflicts m := by
  cases m <;> cases m' <;>
    simp only [LockTable.Counts.Conflicts, LockTable.Counts.grant] at h ⊢ <;> omega

/-- Counting one more grant. -/
theorem counts_grant (s : LockSys T) (tbl : LockTable) (owner : T) (key : LockKey)
    (mode : LockMode) :
    ({ s with table := tbl, grants := ⟨owner, key, mode⟩ :: s.grants } : LockSys T).counts =
      Function.update s.counts key ((s.counts key).grant mode) := by
  funext k
  by_cases hk : k = key
  · subst hk
    rw [Function.update_self]
    cases mode <;> simp [counts, holders, waiting, LockTable.Counts.grant]
  · have hk' : ¬ key = k := fun h => hk h.symm
    rw [Function.update_of_ne hk]
    simp [counts, holders, waiting, hk']

/-- Counting one more sleeper. -/
theorem counts_wait (s : LockSys T) (tbl : LockTable) (t : Nat) (key : LockKey) (mode : LockMode)
    (addr : Nat) :
    ({ s with table := tbl, sleepers := ⟨t, key, mode, addr, false⟩ :: s.sleepers } :
      LockSys T).counts = Function.update s.counts key (s.counts key).wait := by
  funext k
  by_cases hk : k = key
  · subst hk
    rw [Function.update_self]
    simp [counts, holders, waiting, LockTable.Counts.wait]
  · have hk' : ¬ key = k := fun h => hk h.symm
    rw [Function.update_of_ne hk]
    simp [counts, holders, waiting, hk']

/-- Counting one sleeper less. -/
theorem counts_unwait {s : LockSys T} {w : Sleeper} (hw : w ∈ s.sleepers) :
    ({ s with sleepers := s.sleepers.erase w } : LockSys T).counts =
      Function.update s.counts w.key (s.counts w.key).unwait := by
  funext k
  have hcount := (List.perm_cons_erase hw).countP_eq (fun v : Sleeper => v.key == k)
  rw [List.countP_cons] at hcount
  by_cases hk : k = w.key
  · subst hk
    rw [Function.update_self]
    simp only [counts, holders, waiting, LockTable.Counts.unwait, hcount]
    simp
  · have hk' : ¬ w.key = k := fun h => hk h.symm
    rw [Function.update_of_ne hk]
    simp only [counts, holders, waiting, hcount]
    simp [hk']

/-- What all sections of `lock_mgr_lock` have in common: `s` is the system without the caller. -/
theorem settle_inv {s : LockSys T} {t : Nat} {owner : T} {key : LockKey} {mode : LockMode}
    {r : LockTable.LockOutcome × LockTable}
    (hspec : LockTable.LockSpec s.table s.counts key mode r)
    (hpointer : ∀ w ∈ s.sleepers, ∃ e, s.table.findEntry w.key = some e ∧ e.addr = w.addr)
    (hblocked : ∀ w ∈ s.sleepers, w.notified = false → (s.counts w.key).Conflicts w.mode)
    (hthreads : (s.sleepers.map Sleeper.thread).Nodup) (ht : ¬ s.Asleep t)
    (hout : r.1 = .noMemory → s.table.Inv s.counts) : Inv (s.settle t owner key mode r) := by
  obtain ⟨out, tbl⟩ := r
  cases out with
  | noMemory =>
    have htbl : tbl = s.table := hspec
    subst htbl
    exact ⟨hout rfl, hpointer, hblocked, hthreads⟩
  | waiting addr =>
    obtain ⟨hconf, hinv, hkeeps, hentry⟩ := hspec
    have hcounts := counts_wait s tbl t key mode addr
    refine ⟨by rw [← hcounts] at hinv; exact hinv, ?_, ?_, ?_⟩
    · intro w hw
      rcases List.mem_cons.mp hw with rfl | hw
      · exact hentry
      · obtain ⟨e, he, ha⟩ := hpointer w hw
        obtain ⟨e', he', ha'⟩ := hkeeps w.key e he
        exact ⟨e', he', by rw [ha', ha]⟩
    · intro w hw hn
      have hw' : (s.counts w.key).Conflicts w.mode := by
        rcases List.mem_cons.mp hw with rfl | hw
        · exact hconf
        · exact hblocked w hw hn
      show ((_ : LockSys T).counts w.key).Conflicts w.mode
      unfold settle
      rw [hcounts]
      by_cases hk : w.key = key
      · rw [hk, Function.update_self]
        rw [hk] at hw'
        exact hw'
      · rw [Function.update_of_ne hk]
        exact hw'
    · refine List.nodup_cons.mpr ⟨fun hm => ht ?_, hthreads⟩
      obtain ⟨w, hw, hwt⟩ := List.mem_map.mp hm
      exact ⟨w, hw, hwt⟩
  | granted =>
    obtain ⟨-, hinv, hkeeps⟩ := hspec
    have hcounts := counts_grant s tbl owner key mode
    refine ⟨by rw [← hcounts] at hinv; exact hinv, ?_, ?_, hthreads⟩
    · intro w hw
      obtain ⟨e, he, ha⟩ := hpointer w hw
      obtain ⟨e', he', ha'⟩ := hkeeps w.key e he
      exact ⟨e', he', by rw [ha', ha]⟩
    · intro w hw hn
      have hw' := hblocked w hw hn
      show ((_ : LockSys T).counts w.key).Conflicts w.mode
      unfold settle
      rw [hcounts]
      by_cases hk : w.key = key
      · rw [hk, Function.update_self]
        rw [hk] at hw'
        exact conflicts_grant hw'
      · rw [Function.update_of_ne hk]
        exact hw'

/-- A call of `lock_mgr_lock` keeps the invariant. -/
theorem Inv.enter {s : LockSys T} (h : s.Inv) {t : Nat} (ht : ¬ s.Asleep t) (owner : T)
    {alloc : Option Nat} (hfresh : ∀ a ∈ alloc, s.table.Fresh a) (key : LockKey)
    (mode : LockMode) : (s.enter t owner alloc key mode).2.Inv :=
  settle_inv (LockTable.lockMgrLock_spec h.table hfresh key mode) h.pointer h.blocked h.threads ht
    (fun _ => h.table)

theorem waitLoop_memory {tbl : LockTable} {e : LockNode} {mode : LockMode} :
    (tbl.waitLoop e mode).1 ≠ .noMemory := by
  unfold LockTable.waitLoop
  split <;> simp

/-- A call of `lock_mgr_lock` fails for want of memory if it has to allocate an entry and cannot. -/
theorem lockMgrLock_memory {tbl : LockTable} {alloc : Option Nat} {key : LockKey} {mode : LockMode} :
    (tbl.lockMgrLock alloc key mode).1 = .noMemory ↔ tbl.findEntry key = none ∧ alloc = none := by
  unfold LockTable.lockMgrLock
  cases he : tbl.findEntry key with
  | some e => exact ⟨fun h => absurd h waitLoop_memory, fun h => (by cases h.1)⟩
  | none =>
    cases alloc with
    | some addr => exact ⟨fun h => absurd h waitLoop_memory, fun h => (by cases h.2)⟩
    | none => exact ⟨fun _ => ⟨rfl, rfl⟩, fun _ => rfl⟩

/-- The sleepers after a section of `lock_mgr_lock`: the caller if it waits, and those that there were. -/
theorem mem_settle {s : LockSys T} {t : Nat} {owner : T} {key : LockKey} {mode : LockMode}
    {r : LockTable.LockOutcome × LockTable} {v : Sleeper} (h : v ∈ (s.settle t owner key mode r).sleepers) :
    (v.thread = t ∧ v.key = key ∧ v.mode = mode ∧ ∃ addr, r.1 = .waiting addr) ∨ v ∈ s.sleepers := by
  obtain ⟨out, tbl⟩ := r
  cases out with
  | noMemory => exact Or.inr h
  | granted => exact Or.inr h
  | waiting addr =>
    rcases List.mem_cons.mp h with rfl | h
    · exact Or.inl ⟨rfl, rfl, rfl, addr, rfl⟩
    · exact Or.inr h

theorem settle_table {s : LockSys T} {t : Nat} {owner : T} {key : LockKey} {mode : LockMode}
    {r : LockTable.LockOutcome × LockTable} : (s.settle t owner key mode r).table = r.2 := by
  obtain ⟨out, tbl⟩ := r
  cases out <;> rfl

/-- A thread sleeps at one entry. -/
theorem Inv.thread_erase {s : LockSys T} (h : s.Inv) {v w : Sleeper} (hw : w ∈ s.sleepers)
    (hv : v ∈ s.sleepers.erase w) : v.thread ≠ w.thread := by
  have hnd := h.threads
  have hperm := (List.perm_cons_erase hw).map Sleeper.thread
  rw [hperm.nodup_iff, List.map_cons, List.nodup_cons] at hnd
  exact fun hvt => hnd.1 (List.mem_map.mpr ⟨v, hv, hvt⟩)

/-- A thread that wakes up finds its entry, and its step keeps the invariant. -/
theorem Inv.resume [DecidableEq T] {s : LockSys T} (h : s.Inv) {w : Sleeper}
    (hw : w ∈ s.sleepers) (owner : T) : ∃ r, s.resume w owner = some r ∧ r.2.Inv := by
  obtain ⟨e, he, ha⟩ := h.pointer w hw
  obtain ⟨r, hr, hspec⟩ := LockTable.lockMgrLockResume_spec h.table he w.mode
  rw [ha] at hr
  unfold LockSys.resume
  rw [hr]
  refine ⟨_, rfl, ?_⟩
  have hsub : ∀ v ∈ s.sleepers.erase w, v ∈ s.sleepers := fun v hv => List.mem_of_mem_erase hv
  rw [← counts_unwait hw] at hspec
  refine settle_inv hspec (fun v hv => h.pointer v (hsub v hv)) (fun v hv hn => ?_) ?_ ?_ ?_
  · -- holders are untouched, so whoever had to wait still has to
    have hv' := h.blocked v (hsub v hv) hn
    rw [counts_unwait hw]
    by_cases hk : v.key = w.key
    · rw [hk, Function.update_self]
      rw [hk] at hv'
      exact hv'
    · rw [Function.update_of_ne hk]
      exact hv'
  · exact h.threads.sublist ((List.erase_sublist).map _)
  · rintro ⟨v, hv, hvt⟩
    exact h.thread_erase hw hv hvt
  · intro hmem
    unfold LockTable.lockMgrLockResume at hr
    obtain ⟨e', -, rfl⟩ := Option.map_eq_some_iff.mp hr
    exact absurd hmem waitLoop_memory

theorem broadcast_map {l : List Sleeper} {a : Option Nat} {β : Type} (f : Sleeper → β)
    (hf : ∀ w : Sleeper, f { w with notified := true } = f w) :
    (broadcast l a).map f = l.map f := by
  unfold broadcast
  rw [List.map_map]
  refine List.map_congr_left (fun w _ => ?_)
  simp only [Function.comp_apply]
  split
  · exact hf w
  · rfl

theorem mem_broadcast {ws : List Sleeper} {a : Option Nat} {w : Sleeper}
    (h : w ∈ broadcast ws a) :
    ∃ v ∈ ws, v.thread = w.thread ∧ v.key = w.key ∧ v.mode = w.mode ∧ v.addr = w.addr ∧
      (w.notified = false → v.notified = false ∧ a ≠ some w.addr) := by
  unfold broadcast at h
  obtain ⟨v, hv, rfl⟩ := List.mem_map.mp h
  refine ⟨v, hv, ?_⟩
  split
  · exact ⟨rfl, rfl, rfl, rfl, fun hn => by cases hn⟩
  · rename_i ha
    exact ⟨rfl, rfl, rfl, rfl, fun hn => ⟨hn, ha⟩⟩

/-- Counting one grant less. -/
theorem counts_drop [DecidableEq T] {s : LockSys T} {owner : T} {key : LockKey}
    (h : ∃ g ∈ s.grants, g.owner = owner ∧ g.key = key) (tbl : LockTable) (a : Option Nat) :
    ∃ mode, 0 < s.holders key mode ∧ ({
      table := tbl
      grants := s.grants.eraseP (fun g => g.owner == owner && g.key == key)
      sleepers := broadcast s.sleepers a } : LockSys T).counts =
      Function.update s.counts key ((s.counts key).drop mode) := by
  obtain ⟨g, hg, hgo, hgk⟩ := h
  obtain ⟨g', l₁, l₂, -, hp, hl, he⟩ := List.exists_of_eraseP
    (p := fun g => g.owner == owner && g.key == key) hg (by simp [hgo, hgk])
  simp only [Bool.and_eq_true, beq_iff_eq] at hp
  have hwait : ∀ k, (broadcast s.sleepers a).countP (fun w => w.key == k) =
      s.sleepers.countP (fun w => w.key == k) := by
    intro k
    have hmap := broadcast_map (l := s.sleepers) (a := a) Sleeper.key (fun _ => rfl)
    have hcomp : (fun w : Sleeper => w.key == k) = (fun x => x == k) ∘ Sleeper.key := rfl
    rw [hcomp, ← List.countP_map, ← List.countP_map, hmap]
  refine ⟨g'.mode, ?_, ?_⟩
  · unfold holders
    rw [List.countP_pos_iff]
    exact ⟨g', by rw [hl]; simp, by simp [hp.2]⟩
  · funext k
    simp only [he]
    by_cases hk : k = key
    · subst hk
      rw [Function.update_self]
      cases hm : g'.mode <;>
        simp [counts, holders, waiting, LockTable.Counts.drop, hl, hm, hp.2, hwait,
          List.countP_append]
    · have hk' : ¬ g'.key = k := fun h => hk (by rw [← h, hp.2])
      rw [Function.update_of_ne hk]
      simp [counts, holders, waiting, hl, hk', hwait, List.countP_append]

theorem waiting_pos {s : LockSys T} {w : Sleeper} (hw : w ∈ s.sleepers) :
    0 < (s.counts w.key).users := by
  have : 0 < s.waiting w.key := by
    unfold waiting
    rw [List.countP_pos_iff]
    exact ⟨w, hw, by simp⟩
  show 0 < s.holders w.key .shared + s.holders w.key .exclusive + s.waiting w.key
  omega

/-- What an unlock by a holder does. -/
theorem Inv.unlock_spec [DecidableEq T] {s : LockSys T} (h : s.Inv) {owner : T} {key : LockKey}
    (hheld : ∃ g ∈ s.grants, g.owner = owner ∧ g.key = key) :
    (s.table.lockMgrUnlock key).1 = 0 ∧ (s.unlock owner key).Inv ∧
      s.table.KeepsUsed (s.unlock owner key).counts (s.unlock owner key).table := by
  obtain ⟨mode, hpos, hcounts⟩ := counts_drop hheld (s.table.lockMgrUnlock key).2.2
    (s.table.lockMgrUnlock key).2.1
  have hpos' : 0 < (s.counts key).holders mode := by cases mode <;> exact hpos
  obtain ⟨e, tbl', he, hun, hinv, hkeeps⟩ := LockTable.lockMgrUnlock_spec h.table hpos'
  have hcounts' : (s.unlock owner key).counts =
      Function.update s.counts key ((s.counts key).drop mode) := hcounts
  have htable : (s.unlock owner key).table = tbl' := by
    unfold unlock
    rw [hun]
  have hwoken : (s.unlock owner key).sleepers = broadcast s.sleepers (some e.addr) := by
    unfold unlock
    rw [hun]
  rw [← hcounts', ← htable] at hinv hkeeps
  refine ⟨by rw [hun], ⟨hinv, ?_, ?_, ?_⟩, hkeeps⟩
  · intro w hw
    have hused := waiting_pos hw
    rw [hwoken] at hw
    obtain ⟨v, hv, -, hvk, -, hva, -⟩ := mem_broadcast hw
    obtain ⟨n, hn, hna⟩ := h.pointer v hv
    rw [hvk] at hn
    obtain ⟨n', hn', hna'⟩ := hkeeps w.key n hn hused
    exact ⟨n', hn', by rw [hna', hna, hva]⟩
  · intro w hw hnot
    rw [hwoken] at hw
    obtain ⟨v, hv, -, hvk, hvm, hva, hvn⟩ := mem_broadcast hw
    obtain ⟨hvn, hne⟩ := hvn hnot
    have hblocked := h.blocked v hv hvn
    -- a waiter of this record points to the entry that was broadcast
    have hk : w.key ≠ key := by
      intro hk
      obtain ⟨n, hn, hna⟩ := h.pointer v hv
      rw [hvk, hk, he, Option.some.injEq] at hn
      subst hn
      exact hne (by rw [hna, hva])
    rw [hcounts', Function.update_of_ne hk, ← hvk, ← hvm]
    exact hblocked
  · rw [hwoken, broadcast_map Sleeper.thread (fun _ => rfl)]
    exact h.threads

/-- An unlock of a record that nobody holds changes nothing. -/
theorem Inv.unlock_free [DecidableEq T] {s : LockSys T} (h : s.Inv) {owner : T} {key : LockKey}
    (hfree : ∀ g ∈ s.grants, g.key ≠ key) : s.unlock owner key = s := by
  have hnone : ∀ mode, s.holders key mode = 0 := fun mode => by
    unfold holders
    refine List.countP_eq_zero.mpr fun g hg => ?_
    simp [hfree g hg]
  have hgrants : s.grants.eraseP (fun g => g.owner == owner && g.key == key) = s.grants :=
    List.eraseP_of_forall_not fun g hg => by simp [hfree g hg]
  have hsame : ∀ l, broadcast l none = l := fun l => by simp [broadcast]
  have hrefused : s.table.lockMgrUnlock key = (-1, none, s.table) := by
    have hok := h.table.entry key
    unfold LockTable.lockMgrUnlock
    cases he : s.table.findEntry key with
    | none => rfl
    | some e =>
      rw [he] at hok
      have hshared : e.sharedCount = 0 := hok.1.shared.trans (hnone .shared)
      have hexclusive : e.exclusiveHeld = false := by
        have hx : s.holders key .exclusive = if e.exclusiveHeld then 1 else 0 := hok.1.exclusive
        rw [hnone .exclusive] at hx
        cases hb : e.exclusiveHeld with
        | false => rfl
        | true =>
          rw [hb, if_pos rfl] at hx
          cases hx
      simp only [hexclusive, hshared, Nat.lt_irrefl, Bool.false_eq_true, if_false]
  unfold unlock
  rw [hrefused, hgrants, hsame]

/-- Who answers for a lock does not matter to the lock manager. -/
theorem Inv.retag {s : LockSys T} (h : s.Inv) {grants : List (Grant T)}
    (hperm : (grants.map (fun g => (g.key, g.mode))).Perm
      (s.grants.map (fun g => (g.key, g.mode)))) : Inv { s with grants := grants } := by
  have hcounts : ({ s with grants := grants } : LockSys T).counts = s.counts := by
    have hh : ∀ k m, grants.countP (fun g => g.key == k && g.mode == m) =
        s.grants.countP (fun g => g.key == k && g.mode == m) := by
      intro k m
      have := hperm.countP_eq (fun x => x.1 == k && x.2 == m)
      rw [List.countP_map, List.countP_map] at this
      exact this
    funext k
    simp only [counts, holders, waiting, hh]
  refine ⟨?_, h.pointer, ?_, h.threads⟩
  · rw [hcounts]
    exact h.table
  · rw [hcounts]
    exact h.blocked

/-! ## The entries of a section -/

theorem settle_keeps {s : LockSys T} {t : Nat} {owner : T} {key : LockKey} {mode : LockMode}
    {c : LockKey → LockTable.Counts} {r : LockTable.LockOutcome × LockTable}
    (hspec : LockTable.LockSpec s.table c key mode r) :
    s.table.Keeps (s.settle t owner key mode r).table := by
  obtain ⟨out, tbl⟩ := r
  cases out with
  | noMemory =>
    have htbl : tbl = s.table := hspec
    subst htbl
    exact LockTable.Keeps.refl _
  | waiting addr => exact hspec.2.2.1
  | granted => exact hspec.2.2

theorem Inv.enter_keeps {s : LockSys T} (h : s.Inv) {t : Nat} (owner : T) {alloc : Option Nat}
    (hfresh : ∀ a ∈ alloc, s.table.Fresh a) (key : LockKey) (mode : LockMode) :
    s.table.Keeps (s.enter t owner alloc key mode).2.table :=
  settle_keeps (LockTable.lockMgrLock_spec h.table hfresh key mode)

theorem Inv.resume_keeps [DecidableEq T] {s : LockSys T} (h : s.Inv) {w : Sleeper}
    (hw : w ∈ s.sleepers) {owner : T} {r : LockTable.LockOutcome × LockSys T}
    (hr : s.resume w owner = some r) : s.table.Keeps r.2.table := by
  obtain ⟨e, he, ha⟩ := h.pointer w hw
  obtain ⟨q, hq, hspec⟩ := LockTable.lockMgrLockResume_spec h.table he w.mode
  rw [ha] at hq
  unfold LockSys.resume at hr
  rw [hq, Option.map_some, Option.some.injEq] at hr
  subst hr
  exact settle_keeps (s := { s with sleepers := s.sleepers.erase w }) hspec

/-! ## Threads that lock and unlock -/

/-- A critical section of one of the two functions. -/
inductive Act where
  /-- Thread `t` calls `lock_mgr_lock`; `alloc` is what `calloc` would return. -/
  | lock (t : Nat) (alloc : Option Nat) (key : LockKey) (mode : LockMode)
  /-- `pthread_cond_wait` returns in thread `t`, after a broadcast or spuriously. -/
  | wake (t : Nat)
  /-- Thread `t` calls `lock_mgr_unlock`. -/
  | unlock (t : Nat) (key : LockKey)
  deriving DecidableEq, Repr

/-- One critical section; a sleeping thread can only wake up. -/
def step (s : LockSys Nat) : Act → Option (LockSys Nat)
  | .lock t alloc key mode => if s.Asleep t then none else some (s.enter t t alloc key mode).2
  | .wake t =>
    match s.sleepers.find? (fun w => w.thread == t) with
    | none => none
    | some w => (s.resume w t).map Prod.snd
  | .unlock t key => if s.Asleep t then none else some (s.unlock t key)

/-- `calloc` returns unused memory, and a thread unlocks only what it holds. -/
def Admissible (s : LockSys Nat) : Act → Prop
  | .lock _ alloc _ _ => ∀ a ∈ alloc, s.table.Fresh a
  | .wake _ => True
  | .unlock t key => ∃ g ∈ s.grants, g.owner = t ∧ g.key = key

theorem Inv.step {s s' : LockSys Nat} {a : Act} (h : s.Inv) (hok : Admissible s a)
    (hstep : s.step a = some s') : s'.Inv ∧ s.table.KeepsUsed s'.counts s'.table := by
  cases a with
  | lock t alloc key mode =>
    simp only [LockSys.step] at hstep
    split at hstep
    · cases hstep
    · rename_i ht
      cases hstep
      exact ⟨h.enter ht t hok key mode, (h.enter_keeps t hok key mode).used _⟩
  | wake t =>
    simp only [LockSys.step] at hstep
    split at hstep
    · cases hstep
    · rename_i w hf
      have hw := List.mem_of_find?_eq_some hf
      obtain ⟨r, hr, hinv⟩ := h.resume hw t
      have hk := h.resume_keeps hw hr
      rw [hr, Option.map_some, Option.some.injEq] at hstep
      subst hstep
      exact ⟨hinv, hk.used _⟩
  | unlock t key =>
    simp only [LockSys.step] at hstep
    split at hstep
    · cases hstep
    · cases hstep
      exact (h.unlock_spec hok).2

/-! ## Only compatible locks, and no lost waiter -/

/-- The two modes may be held together. -/
def compatible : LockMode → LockMode → Bool
  | .shared, .shared => true
  | _, _ => false

/-- Some thread holds the lock of the record or waits for it. -/
def InUse (s : LockSys T) (key : LockKey) : Prop :=
  (∃ g ∈ s.grants, g.key = key) ∨ ∃ w ∈ s.sleepers, w.key = key

/-- What the lock manager guarantees in a state. -/
structure Safe (s : LockSys T) : Prop where
  /-- One exclusive holder alone, or shared holders only. -/
  modes : ∀ key, s.holders key .exclusive = 0 ∨
    s.holders key .exclusive = 1 ∧ s.holders key .shared = 0
  /-- `exclusive_held` and `shared_count` are the actual holders. -/
  counters : ∀ i, ∀ e ∈ s.table i, e.sharedCount = s.holders e.key .shared ∧
    (if e.exclusiveHeld then 1 else 0) = s.holders e.key .exclusive
  /-- A chain has one entry for each record. -/
  oneEntry : ∀ i, ((s.table i).map LockNode.key).Nodup
  /-- A record that is held has its entry. -/
  held : ∀ g ∈ s.grants, ∃ e ∈ s.table (lockHash g.key), e.key = g.key
  /-- A waiting thread points to the entry of its record. -/
  awaited : ∀ w ∈ s.sleepers, ∃ e ∈ s.table (lockHash w.key), e.key = w.key ∧ e.addr = w.addr
  /-- No entry without a holder or waiter. -/
  inUse : ∀ i, ∀ e ∈ s.table i, s.InUse e.key
  /-- Who sleeps un-notified conflicts with a holder. -/
  blocked : ∀ w ∈ s.sleepers, w.notified = false →
    ∃ g ∈ s.grants, g.key = w.key ∧ compatible w.mode g.mode = false

theorem holders_pos {s : LockSys T} {key : LockKey} {mode : LockMode} :
    0 < s.holders key mode ↔ ∃ g ∈ s.grants, g.key = key ∧ g.mode = mode := by
  unfold holders
  rw [List.countP_pos_iff]
  simp

theorem inUse_iff {s : LockSys T} {key : LockKey} : s.InUse key ↔ 0 < (s.counts key).users := by
  show s.InUse key ↔ 0 < s.holders key .shared + s.holders key .exclusive + s.waiting key
  constructor
  · rintro (⟨g, hg, rfl⟩ | ⟨w, hw, rfl⟩)
    · have : 0 < s.holders g.key g.mode := holders_pos.mpr ⟨g, hg, rfl, rfl⟩
      cases hm : g.mode <;> rw [hm] at this <;> omega
    · exact waiting_pos hw
  · intro h
    by_cases h1 : 0 < s.holders key .shared
    · obtain ⟨g, hg, hk, -⟩ := holders_pos.mp h1
      exact Or.inl ⟨g, hg, hk⟩
    · by_cases h2 : 0 < s.holders key .exclusive
      · obtain ⟨g, hg, hk, -⟩ := holders_pos.mp h2
        exact Or.inl ⟨g, hg, hk⟩
      · have h3 : 0 < s.waiting key := by omega
        unfold waiting at h3
        rw [List.countP_pos_iff] at h3
        obtain ⟨w, hw, hk⟩ := h3
        exact Or.inr ⟨w, hw, by simpa using hk⟩

/-- A record in use has an entry that counts its users. -/
theorem Inv.entry_of_inUse {s : LockSys T} (h : s.Inv) {key : LockKey} (hu : s.InUse key) :
    ∃ e, s.table.findEntry key = some e ∧ LockTable.Matches e (s.counts key) := by
  have hok := h.table.entry key
  rw [inUse_iff] at hu
  cases he : s.table.findEntry key with
  | none =>
    rw [he] at hok
    have : (s.counts key).users = 0 := hok
    omega
  | some e =>
    rw [he] at hok
    exact ⟨e, rfl, hok.1⟩

theorem Inv.safe {s : LockSys T} (h : s.Inv) : s.Safe := by
  have hmem : ∀ key e, s.table.findEntry key = some e →
      e ∈ s.table (lockHash key) ∧ e.key = key := fun key e he => Chains.find_some he
  have hentry : ∀ i, ∀ e ∈ s.table i, LockTable.Matches e (s.counts e.key) ∧ s.InUse e.key := by
    intro i e he
    have hok := h.table.entry e.key
    rw [(h.table.wf.mem_iff.mp he).2] at hok
    exact ⟨hok.1, inUse_iff.mpr hok.2⟩
  refine ⟨fun key => ?_, fun i e he => ?_, h.table.wf.chains.nodup, fun g hg => ?_, fun w hw => ?_,
    fun i e he => (hentry i e he).2, fun w hw hn => ?_⟩
  · obtain ⟨h1, h2⟩ := h.table.compatible key
    have h1' : s.holders key .exclusive ≤ 1 := h1
    by_cases hx : s.holders key .exclusive = 1
    · exact Or.inr ⟨hx, h2 hx⟩
    · left
      omega
  · obtain ⟨hm, -⟩ := hentry i e he
    exact ⟨hm.shared, hm.exclusive.symm⟩
  · obtain ⟨e, he, -⟩ := h.entry_of_inUse (Or.inl ⟨g, hg, rfl⟩)
    exact ⟨e, (hmem _ e he).1, (hmem _ e he).2⟩
  · obtain ⟨e, he, ha⟩ := h.pointer w hw
    exact ⟨e, (hmem _ e he).1, (hmem _ e he).2, ha⟩
  · have hc := h.blocked w hw hn
    cases hm : w.mode with
    | shared =>
      rw [hm] at hc
      obtain ⟨g, hg, hk, hgm⟩ := holders_pos.mp hc
      exact ⟨g, hg, hk, by rw [hgm]; rfl⟩
    | exclusive =>
      rw [hm] at hc
      rcases hc with hc | hc
      · obtain ⟨g, hg, hk, hgm⟩ := holders_pos.mp hc
        exact ⟨g, hg, hk, rfl⟩
      · obtain ⟨g, hg, hk, hgm⟩ := holders_pos.mp hc
        exact ⟨g, hg, hk, rfl⟩

/-- An exclusive lock is the only lock on its record. -/
theorem Safe.sole {s : LockSys T} (h : s.Safe) {g g' : Grant T} (hg : g ∈ s.grants)
    (hg' : g' ∈ s.grants) (hk : g'.key = g.key) (hx : g.mode = .exclusive) : g' = g := by
  have hpos : 0 < s.holders g.key .exclusive := holders_pos.mpr ⟨g, hg, rfl, hx⟩
  rcases h.modes g.key with h0 | ⟨h1, h2⟩
  · omega
  · have hx' : g'.mode = .exclusive := by
      cases hm : g'.mode with
      | exclusive => rfl
      | shared =>
        have : 0 < s.holders g.key .shared := holders_pos.mpr ⟨g', hg', hk, hm⟩
        omega
    unfold holders at h1
    rw [List.countP_eq_length_filter, List.length_eq_one_iff] at h1
    obtain ⟨x, hfilter⟩ := h1
    have hmem : ∀ y ∈ s.grants, y.key = g.key → y.mode = .exclusive → y = x := by
      intro y hy hyk hym
      have : y ∈ s.grants.filter (fun y => y.key == g.key && y.mode == .exclusive) :=
        List.mem_filter.mpr ⟨hy, by simp [hyk, hym]⟩
      rw [hfilter] at this
      exact List.mem_singleton.mp this
    rw [hmem g hg rfl hx, hmem g' hg' hk hx']

theorem Inv.reachable {s : LockSys Nat} (h : Reachable LockSys.step Admissible LockSys.create s) :
    s.Inv :=
  h.invariant Inv.create (fun _ _ _ hinv hok hs => (hinv.step hok hs).1)

end LockSys

/-- **The lock manager grants only compatible locks and loses no waiter**, for any number of
threads and any interleaving; and no step removes an entry that is in use after it. -/
theorem lock_manager_safe {s : LockSys Nat}
    (h : Reachable LockSys.step LockSys.Admissible LockSys.create s) :
    s.Safe ∧ ∀ a s', LockSys.Admissible s a → s.step a = some s' → ∀ i, ∀ e ∈ s.table i,
      s'.InUse e.key → ∃ e' ∈ s'.table i, e'.key = e.key ∧ e'.addr = e.addr := by
  have hinv := LockSys.Inv.reachable h
  refine ⟨hinv.safe, fun a s' hok hstep i e he hu => ?_⟩
  obtain ⟨hi, hf⟩ := hinv.table.wf.mem_iff.mp he
  obtain ⟨e', he', ha⟩ := (hinv.step hok hstep).2 e.key e hf (LockSys.inUse_iff.mp hu)
  obtain ⟨hm, hk⟩ := Chains.find_some he'
  rw [hi] at hm
  exact ⟨e', hm, hk, ha⟩

/-- The test of `Admissible` on a concrete state. -/
def LockSys.isAdmissible (s : LockSys Nat) : LockSys.Act → Bool
  | .lock _ alloc _ _ => alloc.all (fun a => decide (∀ i, ∀ e ∈ s.table i, e.addr ≠ a))
  | .wake _ => true
  | .unlock t key => s.grants.any (fun g => g.owner == t && g.key == key)

theorem LockSys.admissible_of_isAdmissible {s : LockSys Nat} {a : LockSys.Act}
    (h : s.isAdmissible a = true) : LockSys.Admissible s a := by
  cases a with
  | lock t alloc key mode =>
    intro a ha
    cases ha
    simp only [LockSys.isAdmissible, Option.all_some, decide_eq_true_eq] at h
    exact h
  | wake t => trivial
  | unlock t key =>
    obtain ⟨g, hg, hgk⟩ := List.any_eq_true.mp h
    rw [Bool.and_eq_true, beq_iff_eq, beq_iff_eq] at hgk
    exact ⟨g, hg, hgk⟩

/-- A writer waits behind two readers of a record whose bucket another record shares, and is woken
by the first reader that leaves. -/
theorem lock_manager_safe_contended : ∃ s : LockSys Nat,
    Reachable LockSys.step LockSys.Admissible LockSys.create s ∧
    s.sleepers = [⟨2, ⟨.seats, 1⟩, .exclusive, 64, true⟩] ∧
    s.grants = [⟨3, ⟨.seats, 252⟩, .exclusive⟩, ⟨1, ⟨.seats, 1⟩, .shared⟩] ∧ s.Safe := by
  have hrun : (runSteps LockSys.step LockSys.isAdmissible LockSys.create
      [.lock 0 (some 64) ⟨.seats, 1⟩ .shared, .lock 1 none ⟨.seats, 1⟩ .shared,
        .lock 2 none ⟨.seats, 1⟩ .exclusive, .lock 3 (some 128) ⟨.seats, 252⟩ .exclusive,
        .unlock 0 ⟨.seats, 1⟩]).any (fun s =>
        s.sleepers == [⟨2, ⟨.seats, 1⟩, .exclusive, 64, true⟩] &&
        s.grants == [⟨3, ⟨.seats, 252⟩, .exclusive⟩, ⟨1, ⟨.seats, 1⟩, .shared⟩]) = true := by
    decide +kernel
  obtain ⟨s, hs, hcheck⟩ := (Option.any_eq_true _ _).mp hrun
  rw [Bool.and_eq_true, beq_iff_eq, beq_iff_eq] at hcheck
  have hreach := Reachable.of_runSteps (fun _ _ h => LockSys.admissible_of_isAdmissible h) hs
  exact ⟨s, hreach, hcheck.1, hcheck.2, (lock_manager_safe hreach).1⟩

end Ticketing
