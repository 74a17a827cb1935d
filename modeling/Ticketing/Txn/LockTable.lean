import Ticketing.Lib.HashChains
import Ticketing.Txn.LockManager

/-!
# The lock table (`server/txn/lock_manager.c`)

The hash table behind the lock manager: `LOCK_TABLE_SIZE` chains of heap-allocated entries.  An
entry is known by the address `calloc` gave it, because a thread that waits keeps a pointer to it
across `pthread_cond_wait`.  Every function below is one critical section of a bucket mutex;
`lock_mgr_lock` is cut at the wait into `lockMgrLock` (up to the first wait or the return) and
`lockMgrLockResume` (from the wait on).

* `LockTable.Inv` — the table is exactly the holders and waiters it is told of.
* `LockTable.toManager` — forgetting chains, addresses and waiters gives the `LockManager`.

The field `mode` of `lock_entry_t` is left out: it is written and never read.  The counters are
`int`s that count threads.
-/

set_option autoImplicit false

namespace Ticketing

/-- `lock_entry_t`, with the address it lives at. -/
structure LockNode where
  addr : Nat
  key : LockKey
  sharedCount : Nat
  exclusiveHeld : Bool
  waiters : Nat
  deriving DecidableEq, Repr

/-- An entry with the counters of another. -/
def LockNode.write (n e : LockNode) : LockNode :=
  { n with sharedCount := e.sharedCount, exclusiveHeld := e.exclusiveHeld, waiters := e.waiters }

/-- `lock_hash`, in 32-bit arithmetic. -/
def lockHash (key : LockKey) : Fin LOCK_TABLE_SIZE :=
  ⟨(key.table.code * 10007 + key.record) % 2 ^ 32 % LOCK_TABLE_SIZE, Nat.mod_lt _ (by decide)⟩

/-- The buckets of a `lock_manager_t`. -/
abbrev LockTable := Chains (Fin LOCK_TABLE_SIZE) LockNode

namespace LockTable

/-- `find_entry`. -/
def findEntry (tbl : LockTable) (key : LockKey) : Option LockNode :=
  Chains.find lockHash LockNode.key tbl key

/-- The entry `create_entry` makes at an address. -/
def newEntry (addr : Nat) (key : LockKey) : LockNode := ⟨addr, key, 0, false, 0⟩

/-- `create_entry`, once `calloc` has returned an address. -/
def createEntry (tbl : LockTable) (addr : Nat) (key : LockKey) : LockTable :=
  tbl.prepend (lockHash key) (newEntry addr key)

/-- Write the counters of an entry through its pointer. -/
def store (tbl : LockTable) (e : LockNode) : LockTable :=
  tbl.modify (lockHash e.key) (fun n => n.addr == e.addr) (fun n => n.write e)

/-- `try_remove_entry`. -/
def tryRemoveEntry (tbl : LockTable) (target : LockNode) : LockTable :=
  if 0 < target.sharedCount ∨ target.exclusiveHeld = true ∨ 0 < target.waiters then tbl
  else tbl.unlink (lockHash target.key) (fun n => n.addr == target.addr)

/-- The memory behind a pointer into a chain. -/
def entryAt (tbl : LockTable) (key : LockKey) (addr : Nat) : Option LockNode :=
  (tbl (lockHash key)).find? (fun n => n.addr == addr)

/-- The condition of the two wait loops. -/
def mustWait (e : LockNode) : LockMode → Bool
  | .shared => e.exclusiveHeld
  | .exclusive => e.exclusiveHeld || decide (0 < e.sharedCount)

/-- The entry once the lock is granted. -/
def granted (e : LockNode) : LockMode → LockNode
  | .shared => { e with sharedCount := e.sharedCount + 1 }
  | .exclusive => { e with exclusiveHeld := true }

/-- Where a critical section of `lock_mgr_lock` ends. -/
inductive LockOutcome where
  /-- `calloc` failed: return `-1`. -/
  | noMemory
  /-- In `pthread_cond_wait` on the entry at this address. -/
  | waiting (addr : Nat)
  /-- Return `0`. -/
  | granted
  deriving DecidableEq, Repr

/-- The wait loop, from its test to the next wait or to the return. -/
def waitLoop (tbl : LockTable) (e : LockNode) (mode : LockMode) : LockOutcome × LockTable :=
  if mustWait e mode then (.waiting e.addr, tbl.store { e with waiters := e.waiters + 1 })
  else (.granted, tbl.store (granted e mode))

/-- `lock_mgr_lock` up to its first wait or its return; `alloc` is what `calloc` returns. -/
def lockMgrLock (tbl : LockTable) (alloc : Option Nat) (key : LockKey) (mode : LockMode) :
    LockOutcome × LockTable :=
  match tbl.findEntry key with
  | some e => tbl.waitLoop e mode
  | none =>
    match alloc with
    | none => (.noMemory, tbl)
    | some addr => (tbl.createEntry addr key).waitLoop (newEntry addr key) mode

/-- `lock_mgr_lock` from the return of `pthread_cond_wait`; `none` for a dangling pointer. -/
def lockMgrLockResume (tbl : LockTable) (key : LockKey) (addr : Nat) (mode : LockMode) :
    Option (LockOutcome × LockTable) :=
  (tbl.entryAt key addr).map (fun e =>
    (tbl.store { e with waiters := e.waiters - 1 }).waitLoop
      { e with waiters := e.waiters - 1 } mode)

/-- The end of `lock_mgr_unlock`: clean up the entry that was written back. -/
def release (tbl : LockTable) (e : LockNode) : LockTable := (tbl.store e).tryRemoveEntry e

/-- `lock_mgr_unlock`: the return value, the entry whose waiters are woken, and the table. -/
def lockMgrUnlock (tbl : LockTable) (key : LockKey) : Int × Option Nat × LockTable :=
  match tbl.findEntry key with
  | none => (-1, none, tbl)
  | some e =>
    if e.exclusiveHeld then (0, some e.addr, tbl.release { e with exclusiveHeld := false })
    else if 0 < e.sharedCount then
      (0, some e.addr, tbl.release { e with sharedCount := e.sharedCount - 1 })
    else (-1, none, tbl)

/-! ## Chains and pointers -/

/-- The chains are well formed and no two entries share an address. -/
structure WF (tbl : LockTable) : Prop where
  chains : Chains.WF lockHash LockNode.key tbl
  addr : ∀ k k' e e', tbl.findEntry k = some e → tbl.findEntry k' = some e' → e.addr = e'.addr →
    k = k'

theorem WF.empty : WF (fun _ => []) :=
  ⟨Chains.WF.empty, fun _ _ _ _ h => by simp [findEntry, Chains.find] at h⟩

theorem findEntry_key {tbl : LockTable} {key : LockKey} {e : LockNode}
    (h : tbl.findEntry key = some e) : e.key = key := (Chains.find_some h).2

theorem WF.mem_iff {tbl : LockTable} (hwf : tbl.WF) {i : Fin LOCK_TABLE_SIZE} {e : LockNode} :
    e ∈ tbl i ↔ lockHash e.key = i ∧ tbl.findEntry e.key = some e := by
  constructor
  · intro he
    exact ⟨hwf.chains.home i e he, hwf.chains.find_of_mem he⟩
  · rintro ⟨rfl, hf⟩
    exact (Chains.find_some hf).1

/-- In the bucket of an entry, comparing pointers is comparing keys. -/
theorem WF.addr_eq_iff {tbl : LockTable} (hwf : tbl.WF) {key : LockKey} {e : LockNode}
    (he : tbl.findEntry key = some e) :
    ∀ n ∈ tbl (lockHash key), (n.addr == e.addr) = true ↔ n.key = key := by
  intro n hn
  have hf := hwf.chains.find_of_mem hn
  rw [beq_iff_eq]
  constructor
  · intro ha
    exact hwf.addr n.key key n e hf he ha
  · rintro rfl
    have : some n = some e := hf.symm.trans he
    rw [Option.some.inj this]

theorem WF.entryAt_eq {tbl : LockTable} (hwf : tbl.WF) {key : LockKey} {e : LockNode}
    (he : tbl.findEntry key = some e) : tbl.entryAt key e.addr = some e := by
  have hp := hwf.addr_eq_iff he
  have hsame : ∀ l : List LockNode, (∀ n ∈ l, (n.addr == e.addr) = true ↔ n.key = key) →
      l.find? (fun n => n.addr == e.addr) = l.find? (fun n => decide (n.key = key)) := by
    intro l
    induction l with
    | nil => intro _; rfl
    | cons n l ih =>
      intro h
      have hn := h n List.mem_cons_self
      rw [List.find?_cons, List.find?_cons, ih (fun m hm => h m (List.mem_cons_of_mem _ hm))]
      by_cases hk : n.key = key
      · rw [hn.mpr hk, decide_eq_true hk]
      · rw [decide_eq_false hk, Bool.eq_false_iff.mpr (fun h' => hk (hn.mp h'))]
  unfold entryAt
  rw [hsame _ hp]
  exact he

/-- What a write through a pointer does to the lookups. -/
theorem WF.findEntry_store {tbl : LockTable} (hwf : tbl.WF) {key : LockKey} {e x : LockNode}
    (he : tbl.findEntry key = some e) (hk : x.key = e.key) (ha : x.addr = e.addr) :
    (tbl.store x).findEntry = Function.update tbl.findEntry key (some x) := by
  have hkey := findEntry_key he
  funext k
  unfold store
  rw [hk, hkey, ha]
  have hwrite : ∀ n : LockNode, (n.write x).key = n.key := fun _ => rfl
  unfold findEntry at he ⊢
  rw [Chains.find_modify hwrite (hwf.addr_eq_iff he) k, he]
  by_cases h : k = key
  · subst h
    rw [if_pos rfl, Function.update_self, Option.map_some]
    unfold LockNode.write
    rw [← ha, ← hk]
  · rw [if_neg h, Function.update_of_ne h]

theorem WF.store {tbl : LockTable} (hwf : tbl.WF) {key : LockKey} {e x : LockNode}
    (he : tbl.findEntry key = some e) (hk : x.key = e.key) (ha : x.addr = e.addr) :
    (tbl.store x).WF := by
  refine ⟨hwf.chains.modify (fun _ => rfl), ?_⟩
  rw [hwf.findEntry_store he hk ha]
  -- the write leaves the address of every entry alone
  have hold : ∀ k n, Function.update tbl.findEntry key (some x) k = some n →
      ∃ m, tbl.findEntry k = some m ∧ m.addr = n.addr := by
    intro k n hn
    by_cases h : k = key
    · subst h
      rw [Function.update_self, Option.some.injEq] at hn
      subst hn
      exact ⟨e, he, ha.symm⟩
    · rw [Function.update_of_ne h] at hn
      exact ⟨n, hn, rfl⟩
  intro k k' n n' hn hn' haddr
  obtain ⟨m, hm, hma⟩ := hold k n hn
  obtain ⟨m', hm', hma'⟩ := hold k' n' hn'
  exact hwf.addr k k' m m' hm hm' (by rw [hma, hma', haddr])

/-- `calloc` returns memory that no entry occupies. -/
def Fresh (tbl : LockTable) (addr : Nat) : Prop := ∀ i, ∀ e ∈ tbl i, e.addr ≠ addr

instance (tbl : LockTable) (addr : Nat) : Decidable (tbl.Fresh addr) :=
  inferInstanceAs (Decidable (∀ i, ∀ e ∈ tbl i, e.addr ≠ addr))

theorem findEntry_createEntry (tbl : LockTable) (addr : Nat) (key : LockKey) :
    (tbl.createEntry addr key).findEntry =
      Function.update tbl.findEntry key (some (newEntry addr key)) := by
  funext k
  have hkey : (newEntry addr key).key = key := rfl
  unfold findEntry createEntry
  rw [Chains.find_prepend hkey k]
  by_cases h : k = key
  · subst h; rw [if_pos rfl, Function.update_self]
  · rw [if_neg h, Function.update_of_ne h]

theorem WF.createEntry {tbl : LockTable} (hwf : tbl.WF) {addr : Nat} {key : LockKey}
    (hnone : tbl.findEntry key = none) (hfresh : tbl.Fresh addr) :
    (tbl.createEntry addr key).WF := by
  refine ⟨hwf.chains.prepend (e := newEntry addr key) hnone, ?_⟩
  rw [findEntry_createEntry]
  have hne : ∀ k n, tbl.findEntry k = some n → n.addr ≠ addr :=
    fun k n hn => hfresh _ n (Chains.find_some hn).1
  intro k k' n n' hn hn' haddr
  by_cases h : k = key <;> by_cases h' : k' = key
  · rw [h, h']
  · subst h
    rw [Function.update_self, Option.some.injEq] at hn
    rw [Function.update_of_ne h'] at hn'
    subst hn
    exact absurd haddr.symm (hne k' n' hn')
  · subst h'
    rw [Function.update_of_ne h] at hn
    rw [Function.update_self, Option.some.injEq] at hn'
    subst hn'
    exact absurd haddr (hne k n hn)
  · rw [Function.update_of_ne h] at hn
    rw [Function.update_of_ne h'] at hn'
    exact hwf.addr k k' n n' hn hn' haddr

theorem WF.findEntry_unlink {tbl : LockTable} (hwf : tbl.WF) {key : LockKey} {e : LockNode}
    (he : tbl.findEntry key = some e) :
    findEntry (tbl.unlink (lockHash e.key) (fun n => n.addr == e.addr)) =
      Function.update tbl.findEntry key none := by
  funext k
  have hkey := findEntry_key he
  have := hwf.chains.find_unlink (hwf.addr_eq_iff he) k
  unfold findEntry
  rw [hkey, this]
  by_cases h : k = key
  · subst h; rw [if_pos rfl, Function.update_self]
  · rw [if_neg h, Function.update_of_ne h]

theorem WF.unlink {tbl : LockTable} (hwf : tbl.WF) {key : LockKey} {e : LockNode}
    (he : tbl.findEntry key = some e) :
    WF (tbl.unlink (lockHash e.key) (fun n => n.addr == e.addr)) := by
  refine ⟨hwf.chains.unlink, ?_⟩
  rw [hwf.findEntry_unlink he]
  have hold : ∀ k n, Function.update tbl.findEntry key none k = some n →
      tbl.findEntry k = some n := by
    intro k n hn
    by_cases h : k = key
    · subst h; simp at hn
    · rwa [Function.update_of_ne h] at hn
  intro k k' n n' hn hn'
  exact hwf.addr k k' n n' (hold k n hn) (hold k' n' hn')

/-! ## Holders and waiters -/

/-- The threads that hold or await the lock of one record. -/
structure Counts where
  shared : Nat
  exclusive : Nat
  waiting : Nat
  deriving DecidableEq, Repr

namespace Counts

/-- The compatibility matrix: the request has to wait. -/
def Conflicts (c : Counts) : LockMode → Prop
  | .shared => 0 < c.exclusive
  | .exclusive => 0 < c.exclusive ∨ 0 < c.shared

/-- One more holder. -/
def grant (c : Counts) : LockMode → Counts
  | .shared => { c with shared := c.shared + 1 }
  | .exclusive => { c with exclusive := c.exclusive + 1 }

/-- One holder less. -/
def drop (c : Counts) : LockMode → Counts
  | .shared => { c with shared := c.shared - 1 }
  | .exclusive => { c with exclusive := c.exclusive - 1 }

/-- One more waiter. -/
def wait (c : Counts) : Counts := { c with waiting := c.waiting + 1 }

/-- One waiter less. -/
def unwait (c : Counts) : Counts := { c with waiting := c.waiting - 1 }

/-- Holders of a mode. -/
def holders (c : Counts) : LockMode → Nat
  | .shared => c.shared
  | .exclusive => c.exclusive

/-- All threads that need the entry. -/
def users (c : Counts) : Nat := c.shared + c.exclusive + c.waiting

/-- At most one exclusive holder, and no shared holder beside it. -/
def Compatible (c : Counts) : Prop := c.exclusive ≤ 1 ∧ (c.exclusive = 1 → c.shared = 0)

end Counts

/-- The counters of an entry are these. -/
structure Matches (e : LockNode) (c : Counts) : Prop where
  shared : e.sharedCount = c.shared
  exclusive : c.exclusive = if e.exclusiveHeld then 1 else 0
  waiting : e.waiters = c.waiting

/-- There is an entry exactly while a thread needs it, and it counts these threads. -/
def EntryOk (e : Option LockNode) (c : Counts) : Prop :=
  match e with
  | none => c.users = 0
  | some e => Matches e c ∧ 0 < c.users

/-- The table is exactly the holders and waiters `c`. -/
structure Inv (tbl : LockTable) (c : LockKey → Counts) : Prop where
  wf : tbl.WF
  entry : ∀ k, EntryOk (tbl.findEntry k) (c k)
  compatible : ∀ k, (c k).Compatible

theorem Inv.empty : Inv (fun _ => []) (fun _ => ⟨0, 0, 0⟩) := by
  refine ⟨WF.empty, fun k => ?_, fun k => ⟨by simp, by simp⟩⟩
  show EntryOk none _
  rfl

theorem Matches.mustWait_iff {e : LockNode} {c : Counts} (h : Matches e c) (mode : LockMode) :
    mustWait e mode = true ↔ c.Conflicts mode := by
  have hx := h.exclusive
  have hs := h.shared
  cases mode with
  | shared =>
    show e.exclusiveHeld = true ↔ 0 < c.exclusive
    cases hb : e.exclusiveHeld <;> rw [hb] at hx <;> simp [hx]
  | exclusive =>
    show (e.exclusiveHeld || decide (0 < e.sharedCount)) = true ↔ 0 < c.exclusive ∨ 0 < c.shared
    rw [hs]
    cases hb : e.exclusiveHeld <;> rw [hb] at hx <;> simp [hx]

/-- Every entry of `tbl` is in `tbl'` under the same address. -/
def Keeps (tbl tbl' : LockTable) : Prop :=
  ∀ k e, tbl.findEntry k = some e → ∃ e', tbl'.findEntry k = some e' ∧ e'.addr = e.addr

theorem Keeps.refl (tbl : LockTable) : tbl.Keeps tbl := fun _ e he => ⟨e, he, rfl⟩

theorem Keeps.trans {a b c : LockTable} (h : a.Keeps b) (h' : b.Keeps c) : a.Keeps c := by
  intro k e he
  obtain ⟨e', he', ha⟩ := h k e he
  obtain ⟨e'', he'', ha'⟩ := h' k e' he'
  exact ⟨e'', he'', by rw [ha', ha]⟩

theorem WF.keeps_store {tbl : LockTable} (hwf : tbl.WF) {key : LockKey} {e x : LockNode}
    (he : tbl.findEntry key = some e) (hk : x.key = e.key) (ha : x.addr = e.addr) :
    tbl.Keeps (tbl.store x) := by
  intro k n hn
  rw [hwf.findEntry_store he hk ha]
  by_cases h : k = key
  · subst h
    rw [he, Option.some.injEq] at hn
    subst hn
    exact ⟨x, by rw [Function.update_self], ha⟩
  · exact ⟨n, by rw [Function.update_of_ne h, hn], rfl⟩

/-- Replacing the entry of one record and the threads counted there. -/
theorem Inv.of_update {tbl tbl' : LockTable} {c : LockKey → Counts} {key : LockKey}
    {e : Option LockNode} {d : Counts} (hwf : tbl'.WF)
    (hfind : tbl'.findEntry = Function.update tbl.findEntry key e)
    (hrest : ∀ k, k ≠ key → EntryOk (tbl.findEntry k) (c k))
    (hcompat : ∀ k, (c k).Compatible) (he : EntryOk e d) (hd : d.Compatible) :
    Inv tbl' (Function.update c key d) := by
  refine ⟨hwf, fun k => ?_, fun k => ?_⟩
  · rw [hfind]
    by_cases h : k = key
    · subst h
      rw [Function.update_self, Function.update_self]
      exact he
    · rw [Function.update_of_ne h, Function.update_of_ne h]
      exact hrest k h
  · by_cases h : k = key
    · subst h; rw [Function.update_self]; exact hd
    · rw [Function.update_of_ne h]; exact hcompat k

/-! ## One section of `lock_mgr_lock` -/

/-- What a section of `lock_mgr_lock` entered with table `tbl` may do, given the threads `c` apart
from the caller. -/
def LockSpec (tbl : LockTable) (c : LockKey → Counts) (key : LockKey) (mode : LockMode) :
    LockOutcome × LockTable → Prop
  | (.noMemory, tbl') => tbl' = tbl
  | (.waiting addr, tbl') =>
    (c key).Conflicts mode ∧ Inv tbl' (Function.update c key (c key).wait) ∧ tbl.Keeps tbl' ∧
      ∃ e, tbl'.findEntry key = some e ∧ e.addr = addr
  | (.granted, tbl') =>
    ¬ (c key).Conflicts mode ∧ Inv tbl' (Function.update c key ((c key).grant mode)) ∧
      tbl.Keeps tbl'

theorem grant_compatible {c : Counts} {mode : LockMode} (hc : c.Compatible)
    (h : ¬ c.Conflicts mode) : (c.grant mode).Compatible := by
  obtain ⟨h1, h2⟩ := hc
  cases mode with
  | shared =>
    have h0 : ¬ 0 < c.exclusive := h
    exact ⟨h1, fun hx => absurd (show 0 < c.exclusive by rw [show c.exclusive = 1 from hx]; omega) h0⟩
  | exclusive =>
    have h0 : ¬ (0 < c.exclusive ∨ 0 < c.shared) := h
    refine ⟨?_, fun _ => ?_⟩
    · show c.exclusive + 1 ≤ 1
      omega
    · show c.shared = 0
      omega

theorem Matches.granted {e : LockNode} {c : Counts} {mode : LockMode} (h : Matches e c)
    (hc : ¬ c.Conflicts mode) : Matches (LockTable.granted e mode) (c.grant mode) := by
  cases mode with
  | shared => exact ⟨by show e.sharedCount + 1 = c.shared + 1; rw [h.shared], h.exclusive, h.waiting⟩
  | exclusive =>
    have h0 : ¬ (0 < c.exclusive ∨ 0 < c.shared) := hc
    exact ⟨h.shared, by show c.exclusive + 1 = 1; omega, h.waiting⟩

theorem Matches.newEntry {c : Counts} (h : c.users = 0) {addr : Nat} {key : LockKey} :
    Matches (LockTable.newEntry addr key) c := by
  unfold Counts.users at h
  refine ⟨?_, ?_, ?_⟩
  · show 0 = c.shared
    omega
  · show c.exclusive = 0
    omega
  · show 0 = c.waiting
    omega

theorem waitLoop_spec {base tbl : LockTable} {c : LockKey → Counts} {key : LockKey}
    {e : LockNode} (hwf : tbl.WF) (hbase : base.Keeps tbl) (he : tbl.findEntry key = some e) (hm : Matches e (c key))
    (hrest : ∀ k, k ≠ key → EntryOk (tbl.findEntry k) (c k))
    (hcompat : ∀ k, (c k).Compatible) (mode : LockMode) :
    LockSpec base c key mode (tbl.waitLoop e mode) := by
  unfold waitLoop
  split
  · rename_i hw
    have hconf := (hm.mustWait_iff mode).mp hw
    refine ⟨hconf, ?_, hbase.trans (hwf.keeps_store he rfl rfl), ?_⟩
    · refine Inv.of_update (hwf.store he rfl rfl) (hwf.findEntry_store he rfl rfl) hrest hcompat ?_
        (hcompat key)
      refine ⟨⟨hm.shared, hm.exclusive, ?_⟩, ?_⟩
      · show e.waiters + 1 = (c key).waiting + 1
        rw [hm.waiting]
      · show 0 < (c key).shared + (c key).exclusive + ((c key).waiting + 1)
        omega
    · have hfind := hwf.findEntry_store (x := { e with waiters := e.waiters + 1 }) he rfl rfl
      exact ⟨{ e with waiters := e.waiters + 1 }, by rw [hfind, Function.update_self], rfl⟩
  · rename_i hw
    have hconf : ¬ (c key).Conflicts mode := fun h => hw ((hm.mustWait_iff mode).mpr h)
    have hk : (LockTable.granted e mode).key = e.key := by cases mode <;> rfl
    have ha : (LockTable.granted e mode).addr = e.addr := by cases mode <;> rfl
    refine ⟨hconf, ?_, hbase.trans (hwf.keeps_store he hk ha)⟩
    refine Inv.of_update (hwf.store he hk ha) (hwf.findEntry_store he hk ha) hrest hcompat
      ⟨hm.granted hconf, ?_⟩ (grant_compatible (hcompat key) hconf)
    unfold Counts.users
    cases mode <;> simp only [Counts.grant] <;> omega

/-- **`lock_mgr_lock` grants a compatible lock and otherwise waits.** -/
theorem lockMgrLock_spec {tbl : LockTable} {c : LockKey → Counts} (h : Inv tbl c)
    {alloc : Option Nat} (hfresh : ∀ a ∈ alloc, tbl.Fresh a) (key : LockKey) (mode : LockMode) :
    LockSpec tbl c key mode (tbl.lockMgrLock alloc key mode) := by
  unfold lockMgrLock
  split
  · rename_i e he
    have hok := h.entry key
    rw [he] at hok
    exact waitLoop_spec h.wf (Keeps.refl tbl) he hok.1 (fun k _ => h.entry k) h.compatible mode
  · rename_i hnone
    split
    · rfl
    · rename_i a
      have hfind := findEntry_createEntry tbl a key
      have hnew : (tbl.createEntry a key).findEntry key = some (newEntry a key) := by
        rw [hfind, Function.update_self]
      have hzero : (c key).users = 0 := by
        have := h.entry key
        rwa [hnone] at this
      refine waitLoop_spec (h.wf.createEntry hnone (hfresh a rfl)) ?_ hnew (Matches.newEntry hzero)
        (fun k hk => ?_) h.compatible mode
      · intro k n hn
        have hk : k ≠ key := by rintro rfl; rw [hnone] at hn; cases hn
        exact ⟨n, by rw [hfind, Function.update_of_ne hk, hn], rfl⟩
      · rw [hfind, Function.update_of_ne hk]
        exact h.entry k

/-- **A thread that wakes up finds its entry and either takes the lock or sleeps again.** -/
theorem lockMgrLockResume_spec {tbl : LockTable} {c : LockKey → Counts} (h : Inv tbl c)
    {key : LockKey} {e : LockNode} (he : tbl.findEntry key = some e) (mode : LockMode) :
    ∃ r, tbl.lockMgrLockResume key e.addr mode = some r ∧
      LockSpec tbl (Function.update c key (c key).unwait) key mode r := by
  have hok := h.entry key
  rw [he] at hok
  have hfind := h.wf.findEntry_store (x := { e with waiters := e.waiters - 1 }) he rfl rfl
  have hself := congrFun hfind key
  rw [Function.update_self] at hself
  have hwf := h.wf.store (x := { e with waiters := e.waiters - 1 }) he rfl rfl
  have hkeeps := h.wf.keeps_store (x := { e with waiters := e.waiters - 1 }) he rfl rfl
  unfold lockMgrLockResume
  rw [h.wf.entryAt_eq he]
  refine ⟨_, rfl, ?_⟩
  generalize hc : Function.update c key (c key).unwait = d
  refine waitLoop_spec hwf hkeeps hself ?_ (fun k hk => ?_) (fun k => ?_) mode
  · rw [← hc, Function.update_self]
    refine ⟨hok.1.shared, hok.1.exclusive, ?_⟩
    show e.waiters - 1 = (c key).waiting - 1
    rw [hok.1.waiting]
  · rw [← hc, hfind, Function.update_of_ne hk, Function.update_of_ne hk]
    exact h.entry k
  · rw [← hc]
    by_cases hk : k = key
    · subst hk
      rw [Function.update_self]
      exact h.compatible k
    · rw [Function.update_of_ne hk]
      exact h.compatible k

/-! ## `lock_mgr_unlock` -/

/-- The entries of `tbl` that some thread of `c` needs are in `tbl'` under the same address. -/
def KeepsUsed (tbl : LockTable) (c : LockKey → Counts) (tbl' : LockTable) : Prop :=
  ∀ k e, tbl.findEntry k = some e → 0 < (c k).users →
    ∃ e', tbl'.findEntry k = some e' ∧ e'.addr = e.addr

theorem Keeps.used {tbl tbl' : LockTable} (h : tbl.Keeps tbl') (c : LockKey → Counts) :
    tbl.KeepsUsed c tbl' := fun k e he _ => h k e he

/-- Writing an entry back and removing it when idle. -/
theorem release_spec {tbl : LockTable} {c : LockKey → Counts} (h : Inv tbl c) {key : LockKey}
    {e e' : LockNode} {d : Counts} (he : tbl.findEntry key = some e) (hk : e'.key = e.key)
    (ha : e'.addr = e.addr) (hm : Matches e' d) (hd : d.Compatible) :
    Inv (tbl.release e') (Function.update c key d) ∧
      tbl.KeepsUsed (Function.update c key d) (tbl.release e') := by
  have hfind := h.wf.findEntry_store he hk ha
  have hwf := h.wf.store he hk ha
  have hself := congrFun hfind key
  rw [Function.update_self] at hself
  unfold release tryRemoveEntry
  split
  · rename_i huse
    refine ⟨Inv.of_update hwf hfind (fun k _ => h.entry k) h.compatible ⟨hm, ?_⟩ hd,
      (h.wf.keeps_store he hk ha).used _⟩
    have hx := hm.exclusive
    rw [hm.shared, hm.waiting] at huse
    unfold Counts.users
    split at hx
    · omega
    · rename_i hb
      rcases huse with h1 | h1 | h1
      · omega
      · exact absurd h1 hb
      · omega
  · rename_i hidle
    have hzero : d.users = 0 := by
      have hx := hm.exclusive
      rw [hm.shared, hm.waiting] at hidle
      rw [if_neg (fun hb => hidle (Or.inr (Or.inl hb)))] at hx
      unfold Counts.users
      omega
    have hfind' : findEntry ((tbl.store e').unlink (lockHash e'.key) (fun n => n.addr == e'.addr)) =
        Function.update tbl.findEntry key none := by
      rw [hwf.findEntry_unlink hself, hfind, Function.update_idem]
    refine ⟨Inv.of_update (hwf.unlink hself) hfind' (fun k _ => h.entry k) h.compatible hzero hd, ?_⟩
    intro k n hn hu
    rw [hfind']
    by_cases hkk : k = key
    · subst hkk
      rw [Function.update_self, hzero] at hu
      omega
    · exact ⟨n, by rw [Function.update_of_ne hkk, hn], rfl⟩

/-- **`lock_mgr_unlock` drops one holder** of the mode the record is held in. -/
theorem lockMgrUnlock_spec {tbl : LockTable} {c : LockKey → Counts} (h : Inv tbl c)
    {key : LockKey} {mode : LockMode} (hheld : 0 < (c key).holders mode) :
    ∃ e tbl', tbl.findEntry key = some e ∧
      tbl.lockMgrUnlock key = (0, some e.addr, tbl') ∧
      Inv tbl' (Function.update c key ((c key).drop mode)) ∧
      tbl.KeepsUsed (Function.update c key ((c key).drop mode)) tbl' := by
  have hok := h.entry key
  obtain ⟨hc1, hc2⟩ := h.compatible key
  cases he : tbl.findEntry key with
  | none =>
    rw [he] at hok
    have hok' : (c key).shared + (c key).exclusive + (c key).waiting = 0 := hok
    cases mode <;> simp only [Counts.holders] at hheld <;> omega
  | some e =>
    rw [he] at hok
    obtain ⟨hm, -⟩ := hok
    have hx := hm.exclusive
    unfold lockMgrUnlock
    rw [he]
    cases mode with
    | shared =>
      have hs : 0 < (c key).shared := hheld
      have hb : e.exclusiveHeld = false := by
        cases hb : e.exclusiveHeld with
        | false => rfl
        | true => rw [hb, if_pos rfl] at hx; exact absurd (hc2 hx) (by omega)
      have hs' : 0 < e.sharedCount := by rw [hm.shared]; exact hs
      simp only [hb, Bool.false_eq_true, if_false, hs', if_true]
      refine ⟨e, _, rfl, rfl, release_spec h he rfl rfl ⟨?_, ?_, hm.waiting⟩
        ⟨hc1, fun hx1 => ?_⟩⟩
      · show e.sharedCount - 1 = (c key).shared - 1
        rw [hm.shared]
      · rw [hb] at hx
        exact hx
      · have := hc2 hx1
        omega
    | exclusive =>
      have hx' : 0 < (c key).exclusive := hheld
      have hb : e.exclusiveHeld = true := by
        cases hb : e.exclusiveHeld with
        | true => rfl
        | false => rw [hb] at hx; simp at hx; omega
      simp only [hb, if_true]
      refine ⟨e, _, rfl, rfl, release_spec h he rfl rfl ⟨hm.shared, ?_, hm.waiting⟩
        ⟨?_, fun hx1 => ?_⟩⟩
      · show (c key).exclusive - 1 = 0
        omega
      · show (c key).exclusive - 1 ≤ 1
        omega
      · have : (c key).exclusive - 1 = 1 := hx1
        omega

/-! ## The lock manager without chains and waiters -/

/-- The holders that an entry records. -/
def entryHolders : Option LockNode → LockEntry
  | none => ⟨0, false⟩
  | some e => ⟨e.sharedCount, e.exclusiveHeld⟩

/-- Forget chains, addresses and waiters. -/
def toManager (tbl : LockTable) : LockManager := fun key => entryHolders (tbl.findEntry key)

theorem toManager_update {tbl tbl' : LockTable} {key : LockKey} {e : Option LockNode}
    (h : tbl'.findEntry = Function.update tbl.findEntry key e) :
    tbl'.toManager = Function.update tbl.toManager key (entryHolders e) := by
  funext k
  unfold toManager
  rw [h]
  by_cases hk : k = key
  · subst hk; rw [Function.update_self, Function.update_self]
  · rw [Function.update_of_ne hk, Function.update_of_ne hk]

/-- The lock manager refuses a lock exactly if it conflicts with the holders. -/
theorem Inv.refused_iff {tbl : LockTable} {c : LockKey → Counts} (h : Inv tbl c) {key : LockKey}
    {mode : LockMode} :
    Ticketing.lockMgrLock tbl.toManager key mode = none ↔ (c key).Conflicts mode := by
  have hok := h.entry key
  have hkey : tbl.toManager key = entryHolders (tbl.findEntry key) := rfl
  cases he : tbl.findEntry key with
  | none =>
    rw [he] at hok hkey
    have hzero : (c key).shared + (c key).exclusive + (c key).waiting = 0 := hok
    cases mode with
    | shared =>
      simp only [Ticketing.lockMgrLock, hkey, entryHolders, Bool.false_eq_true, if_false, Counts.Conflicts]
      refine ⟨fun h => ?_, fun h => ?_⟩
      · cases h
      · omega
    | exclusive =>
      simp only [Ticketing.lockMgrLock, hkey, entryHolders, Bool.false_eq_true, Nat.lt_irrefl, or_self,
        if_false, Counts.Conflicts]
      refine ⟨fun h => ?_, fun h => ?_⟩
      · cases h
      · omega
  | some e =>
    rw [he] at hok hkey
    rw [← hok.1.mustWait_iff mode]
    cases mode with
    | shared =>
      simp only [Ticketing.lockMgrLock, hkey, entryHolders, mustWait]
      cases e.exclusiveHeld <;> simp
    | exclusive =>
      simp only [Ticketing.lockMgrLock, hkey, entryHolders, mustWait]
      cases e.exclusiveHeld <;> simp

/-- A section of `lock_mgr_lock` entered with table `tbl`, read on the lock manager. -/
def Simulates (tbl : LockTable) (key : LockKey) (mode : LockMode) :
    LockOutcome × LockTable → Prop
  | (.noMemory, tbl') => tbl' = tbl ∧ tbl.findEntry key = none
  | (.waiting _, tbl') =>
    Ticketing.lockMgrLock tbl.toManager key mode = none ∧ tbl'.toManager = tbl.toManager
  | (.granted, tbl') => Ticketing.lockMgrLock tbl.toManager key mode = some tbl'.toManager

theorem waitLoop_simulates {base tbl : LockTable} {key : LockKey} {e : LockNode} (hwf : tbl.WF)
    (hbase : tbl.toManager = base.toManager) (he : tbl.findEntry key = some e) (mode : LockMode) :
    Simulates base key mode (tbl.waitLoop e mode) := by
  have hkey : base.toManager key = ⟨e.sharedCount, e.exclusiveHeld⟩ := by
    rw [← hbase]
    unfold toManager
    rw [he]
    rfl
  unfold waitLoop
  split
  · rename_i hw
    refine ⟨?_, ?_⟩
    · unfold Ticketing.lockMgrLock
      cases mode with
      | shared =>
        simp only [hkey]
        exact if_pos hw
      | exclusive =>
        simp only [hkey]
        exact if_pos (by simpa [mustWait] using hw)
    · rw [toManager_update (hwf.findEntry_store (x := { e with waiters := e.waiters + 1 }) he
        rfl rfl), hbase]
      show Function.update base.toManager key ⟨e.sharedCount, e.exclusiveHeld⟩ = _
      rw [← hkey, Function.update_eq_self]
  · rename_i hw
    have hk : (LockTable.granted e mode).key = e.key := by cases mode <;> rfl
    have ha : (LockTable.granted e mode).addr = e.addr := by cases mode <;> rfl
    show Ticketing.lockMgrLock base.toManager key mode = some _
    rw [toManager_update (hwf.findEntry_store he hk ha), hbase]
    unfold Ticketing.lockMgrLock
    cases mode with
    | shared =>
      have hb : e.exclusiveHeld = false := by simpa [mustWait] using hw
      simp only [hkey, hb, Bool.false_eq_true, if_false]
      rw [← hb]
      rfl
    | exclusive =>
      have hb : e.exclusiveHeld = false ∧ e.sharedCount = 0 := by simpa [mustWait] using hw
      simp only [LockManager.setHeld, hkey, hb.1, hb.2, Bool.false_eq_true, Nat.lt_irrefl, or_self,
        if_false]
      rw [← hb.2]
      rfl

/-- **The chained table refines the lock manager**: it grants a lock exactly when the manager
does. -/
theorem lockMgrLock_simulates {tbl : LockTable} (hwf : tbl.WF) {alloc : Option Nat}
    (hfresh : ∀ a ∈ alloc, tbl.Fresh a) (key : LockKey) (mode : LockMode) :
    Simulates tbl key mode (tbl.lockMgrLock alloc key mode) := by
  unfold lockMgrLock
  split
  · rename_i e he
    exact waitLoop_simulates hwf rfl he mode
  · rename_i hnone
    split
    · exact ⟨rfl, hnone⟩
    · rename_i a
      have hfind := findEntry_createEntry tbl a key
      refine waitLoop_simulates (hwf.createEntry hnone (hfresh a rfl)) ?_
        (by rw [hfind, Function.update_self]) mode
      rw [toManager_update hfind]
      have : tbl.toManager key = entryHolders (some (newEntry a key)) := by
        unfold toManager
        rw [hnone]
        rfl
      rw [← this, Function.update_eq_self]

/-- A thread that wakes up takes the lock exactly when the manager would grant it. -/
theorem lockMgrLockResume_simulates {tbl : LockTable} (hwf : tbl.WF) {key : LockKey}
    {e : LockNode} (he : tbl.findEntry key = some e) (mode : LockMode) :
    ∃ r, tbl.lockMgrLockResume key e.addr mode = some r ∧ Simulates tbl key mode r := by
  have hfind := hwf.findEntry_store (x := { e with waiters := e.waiters - 1 }) he rfl rfl
  have hwf' := hwf.store (x := { e with waiters := e.waiters - 1 }) he rfl rfl
  have hself := congrFun hfind key
  rw [Function.update_self] at hself
  unfold lockMgrLockResume
  rw [hwf.entryAt_eq he]
  refine ⟨_, rfl, ?_⟩
  have hsame : (tbl.store { e with waiters := e.waiters - 1 }).toManager = tbl.toManager := by
    rw [toManager_update hfind]
    have : tbl.toManager key = entryHolders (some { e with waiters := e.waiters - 1 }) := by
      unfold toManager
      rw [he]
      rfl
    rw [← this, Function.update_eq_self]
  exact waitLoop_simulates hwf' hsame hself mode

theorem release_toManager {tbl : LockTable} (hwf : tbl.WF) {key : LockKey} {e x : LockNode}
    (he : tbl.findEntry key = some e) (hk : x.key = e.key) (ha : x.addr = e.addr) :
    (tbl.release x).toManager =
      Function.update tbl.toManager key ⟨x.sharedCount, x.exclusiveHeld⟩ := by
  have hfind := hwf.findEntry_store he hk ha
  unfold release tryRemoveEntry
  split
  · exact toManager_update hfind
  · rename_i hidle
    have hself := congrFun hfind key
    rw [Function.update_self] at hself
    have hs : x.sharedCount = 0 := by omega
    have hb : x.exclusiveHeld = false := by
      cases hb : x.exclusiveHeld with
      | false => rfl
      | true => exact absurd (Or.inr (Or.inl hb)) hidle
    have hfind' : findEntry ((tbl.store x).unlink (lockHash x.key) (fun n => n.addr == x.addr)) =
        Function.update tbl.findEntry key none := by
      rw [(hwf.store he hk ha).findEntry_unlink hself, hfind, Function.update_idem]
    rw [toManager_update hfind', hs, hb]
    rfl

/-- **Unlocking commutes with forgetting the chains**, return value included. -/
theorem lockMgrUnlock_toManager {tbl : LockTable} (hwf : tbl.WF) (key : LockKey) :
    Ticketing.lockMgrUnlock tbl.toManager key =
      ((tbl.lockMgrUnlock key).1, (tbl.lockMgrUnlock key).2.2.toManager) := by
  unfold Ticketing.lockMgrUnlock lockMgrUnlock
  cases he : tbl.findEntry key with
  | none =>
    have hkey : tbl.toManager key = ⟨0, false⟩ := by
      unfold toManager
      rw [he]
      rfl
    simp only [hkey, Bool.false_eq_true, if_false, Nat.lt_irrefl]
  | some e =>
    have hkey : tbl.toManager key = ⟨e.sharedCount, e.exclusiveHeld⟩ := by
      unfold toManager
      rw [he]
      rfl
    simp only [hkey, LockManager.setHeld]
    by_cases hb : e.exclusiveHeld = true
    · simp only [hb, if_true]
      rw [release_toManager (x := { e with exclusiveHeld := false }) hwf he rfl rfl]
    · by_cases hs : 0 < e.sharedCount
      · rw [if_neg hb, if_neg hb, if_pos hs, if_pos hs]
        rw [release_toManager (x := { e with sharedCount := e.sharedCount - 1 }) hwf he rfl rfl]
      · rw [if_neg hb, if_neg hb, if_neg hs, if_neg hs]

end LockTable

end Ticketing
