import Ticketing.Lib.Runs
import Ticketing.Storage.TableHeap

/-!
# Tables over one pool (`server/storage/table.h`)

The five tables share the pool, the files and the log, and each has its index and its counter.

* `TableStore`, `TableStore.call` — one call on one of the tables.
* `slotCall` — what the call does to the list of the table's records, deleted ones included.
* `StoreHolds`, `StoreHolds.call` — all tables hold their lists, and so they do after a call.
-/

set_option autoImplicit false

namespace Ticketing

open Bytes

/-! ## Calls -/

/-- A call of the table layer; an insertion with what the index finds when it creates nodes. -/
inductive RowCall where
  | insert (record : Memory) (alloc : Nat → Bool)
  | find (key : Nat)
  | update (key : Nat) (record : Memory)
  | delete (key : Nat)
  | scan (filter : Bytes → Bool) (max : Nat)
  | count

/-- What it returns. -/
inductive RowResult where
  | inserted (rc : EtpResult) (id : Nat)
  | found (r : Except EtpResult Bytes)
  | changed (r : Except EtpResult Unit)
  | scanned (records : List Bytes)
  | counted (n : Int)

/-- The call on a table. -/
def RowCall.prog (table : Table) : RowCall → TableProg RowResult
  | .insert record alloc => do
    let r ← tableInsertUnlocked table alloc record
    pure (.inserted r.1 r.2)
  | .find key => do
    let r ← tableFindByIdUnlocked table key
    pure (.found r)
  | .update key record => do
    let r ← tableUpdateUnlocked table key record
    pure (.changed r)
  | .delete key => do
    let r ← tableDeleteUnlocked table key
    pure (.changed r)
  | .scan filter max => do
    let r ← tableScanUnlocked table filter max
    pure (.scanned r)
  | .count => do
    let n ← tableCountUnlocked table
    pure (.counted (toCInt n))

/-- What the call finds when it creates nodes of the index. -/
def RowCall.alloc : RowCall → Nat → Bool
  | .insert _ alloc => alloc
  | _ => allocOk

/-- The open tables of the server: their descriptors and indexes, the index files on disk, and what they
share. -/
structure TableStore where
  fd : TableId → Int
  index : TableId → BTree
  indexFile : TableId → Bytes
  pool : BufferPool
  files : DataFiles
  wal : Wal
  nextId : TableId → Nat

namespace TableStore

/-- What a call on a table works on. -/
def env (s : TableStore) (id : TableId) : TableEnv :=
  ⟨s.index id, s.pool, s.files, s.wal, s.nextId, IoScript.ok⟩

/-- The store after a call on a table. -/
def put (s : TableStore) (id : TableId) (e : TableEnv) : TableStore :=
  { s with index := Function.update s.index id e.pkIndex, pool := e.pool, files := e.files, wal := e.wal,
           nextId := e.nextId }

/-- One call. -/
def call (s : TableStore) (c : TableId × RowCall) : Except BadAccess RowResult × TableStore :=
  match c.2.prog ⟨c.1, s.fd c.1⟩ (s.env c.1) with
  | .ok (r, e) => (.ok r, s.put c.1 e)
  | .error e => (.error e, s)

end TableStore

/-- `table_create` of all tables over a new pool and a new log. -/
def tablesCreate (n : Nat) (fd : TableId → Int) : TableStore where
  fd := fd
  index := fun _ => (btreeSave (btreeCreate BTREE_DEFAULT_ORDER)).1
  indexFile := fun _ => (btreeSave (btreeCreate BTREE_DEFAULT_ORDER)).2
  pool := bufferPoolCreate n
  files := fun _ => []
  wal := walCreate
  nextId := fun _ => 1

/-! ## One table -/

/-- What a call returns and does to the records of the table. -/
def slotCall (id : TableId) (T : OTable Bytes) : RowCall → RowResult × OTable Bytes
  | .insert record _ => (.inserted .ok T.nextId, T.insert (storedRecord id T.nextId record))
  | .find key => (.found (findResult id T key), T)
  | .update key record =>
    ((liveRows id T).get? key).elim (.changed (.error .errNotFound), T) fun _ =>
      (.changed (.ok ()), T.update key (record.bytes (etpRecordSize id)))
  | .delete key =>
    ((liveRows id T).get? key).elim (.changed (.error .errNotFound), T) fun a =>
      (.changed (.ok ()), T.update key (deletedRecord id a))
  | .scan filter max => (.scanned (((liveRows id T).scan filter max).map Prod.snd), T)
  | .count => (.counted (toCInt (liveRows id T).rows.length), T)

/-- What it appends to the log. -/
def CallLogs (id : TableId) (T : OTable Bytes) (recs : List WalRecord) : RowCall → Prop
  | .insert record _ => recs = [insertLog id T.nextId (stampKey id T.nextId record)]
  | .update key record =>
    ((liveRows id T).get? key).elim (recs = []) fun _ => ∃ old, recs = [updateLog id key old record]
  | .delete key => ((liveRows id T).get? key).elim (recs = []) fun _ => ∃ old, recs = [deleteLog id key old]
  | _ => recs = []

/-- The log has a number for what the call logs; an insertion finds an id, and room in the index. -/
def RowCall.Ready (T : OTable Bytes) (t : BTree) (wal : Wal) : RowCall → Prop
  | .insert _ alloc => T.nextId + 1 < 2 ^ 32 ∧ HasRoom alloc t T.nextId ∧ wal.nextLsn ≠ INVALID_LSN
  | .update _ _ => wal.nextLsn ≠ INVALID_LSN
  | .delete _ => wal.nextLsn ≠ INVALID_LSN
  | _ => True

/-- The index is as before, or has changed and is marked so. -/
def IndexMoved (alloc : Nat → Bool) (t t' : BTree) : Prop :=
  t' = t ∨ t'.dirty = true ∧ ∃ op, t' = (btreeStep alloc t op).2

section Table

variable {n : Nat} {table : Table} {T : OTable Bytes} {mem : PageKey → Bytes} {pages : Int → Nat}
  {r : TableRest}

/-- A table has no more pages than ids. -/
theorem TableHolds.pages_le {t : BTree} (h : TableHolds table T mem pages t) :
    pages table.dataFd ≤ T.nextId := by
  obtain ⟨heap, hrows, hpages, -⟩ := h.stored
  have hrow := OTable.length_rows_lt h.ids h.next
  have hlen := hpages.filled.length_le
  rw [hrows, hpages.length] at hlen
  omega

theorem TableHolds.few {t : BTree} (h : TableHolds table T mem pages t) (hids : T.nextId < 2 ^ 32) :
    pages table.dataFd < 2 ^ 32 := Nat.lt_of_le_of_lt h.pages_le hids

/-- What happens in the files of other tables does not matter. -/
theorem TableHolds.frame {t : BTree} (h : TableHolds table T mem pages t) {fd : Int}
    {mem' : PageKey → Bytes} {pages' : Int → Nat} (honly : OnlyFile fd mem mem' pages pages')
    (hne : table.dataFd ≠ fd) : TableHolds table T mem' pages' t := by
  obtain ⟨heap, hrows, hpages, hindex⟩ := h.stored
  refine ⟨h.ids, h.next, heap, hrows, ?_, hindex⟩
  have hmem : (fun p => mem' ⟨table.dataFd, p⟩) = fun p => mem ⟨table.dataFd, p⟩ :=
    funext fun p => honly.1 ⟨table.dataFd, p⟩ hne
  rw [hmem, honly.2 _ hne]
  exact hpages

theorem btreeInsert_dirty {alloc : Nat → Bool} {t : BTree} {key : Nat} {value : RecordPtr}
    (h : (btreeInsert alloc t key value).1 = 0) : (btreeInsert alloc t key value).2.dirty = true := by
  simp only [btreeInsert] at h ⊢
  split
  · rename_i herror
    rw [if_pos herror] at h
    cases h
  · rename_i herror
    rw [if_neg herror] at h
    split
    · rfl
    · rename_i promoted newNode hsplit
      rw [hsplit] at h
      dsimp only at h
      split
      · rfl
      · rename_i hfail
        rw [if_neg hfail] at h
        cases h

theorem btreeDelete_moved (t : BTree) (key : Nat) : IndexMoved allocOk t (btreeDelete t key).2 := by
  cases hpos : findPos t key with
  | none =>
    left
    simp only [btreeDelete, hpos]
  | some r =>
    refine Or.inr ⟨?_, .delete key, rfl⟩
    simp only [btreeDelete, hpos]

/-- **One call on one table.** -/
theorem TableHolds.call (h : TableHolds table T mem pages r.pkIndex) (hn : 0 < n) (hn' : n < 2 ^ 30)
    (hnext : r.nextId table.id = T.nextId) (hids : T.nextId < 2 ^ 32) {c : RowCall}
    (hready : c.Ready T r.pkIndex r.wal) : ∃ mem' pages' t' recs,
      Runs (Cached n mem pages) r (c.prog table) (slotCall table.id T c).1 (Cached n mem' pages')
        ⟨t', recs.foldl Wal.logged r.wal,
          Function.update r.nextId table.id (slotCall table.id T c).2.nextId⟩ ∧
      TableHolds table (slotCall table.id T c).2 mem' pages' t' ∧
      OnlyFile table.dataFd mem mem' pages pages' ∧ IndexMoved c.alloc r.pkIndex t' ∧
      CallLogs table.id T recs c := by
  have hfew := h.few hids
  have hsame : Function.update r.nextId table.id T.nextId = r.nextId := by
    rw [← hnext]
    exact Function.update_eq_self _ _
  have honly : OnlyFile table.dataFd mem mem pages pages := ⟨fun _ _ => rfl, fun _ _ => rfl⟩
  -- a call that changes nothing
  have hkeep : ∀ {a : RowResult}, Runs (Cached n mem pages) r (c.prog table) a (Cached n mem pages) r →
      Runs (Cached n mem pages) r (c.prog table) a (Cached n mem pages)
        ⟨r.pkIndex, ([] : List WalRecord).foldl Wal.logged r.wal,
          Function.update r.nextId table.id T.nextId⟩ := fun hrun => by
    rw [hsame]
    exact hrun
  cases c with
  | insert record alloc =>
    obtain ⟨hroom, hfits, hlsn⟩ := hready
    obtain ⟨mem', pages', ptr, hrun, hret, hholds, honly'⟩ :=
      h.insert hn hn' hnext hroom hlsn hfits record
    exact ⟨mem', pages', _, [_], hrun.bind (Runs.pure _), hholds, honly',
      Or.inr ⟨btreeInsert_dirty hret, .insert T.nextId ptr, rfl⟩, rfl⟩
  | find key =>
    exact ⟨mem, pages, _, [], hkeep ((h.find hn hn' key).bind (Runs.pure _)), h, honly, Or.inl rfl, rfl⟩
  | update key record =>
    cases hlive : (liveRows table.id T).get? key with
    | none =>
      have hslot : slotCall table.id T (.update key record) = (.changed (.error .errNotFound), T) := by
        simp only [slotCall, hlive, Option.elim_none]
      rw [hslot]
      refine ⟨mem, pages, _, [], hkeep ((h.visitRecord_missing hn hn' hlive).bind (Runs.pure _)), h, honly,
        Or.inl rfl, ?_⟩
      simp only [CallLogs, hlive, Option.elim_none]
    | some a =>
      obtain ⟨mem', old, hrun, hholds, honly'⟩ := h.update hn hn' hready hlive record
      have hslot : slotCall table.id T (.update key record) =
          (.changed (.ok ()), T.update key (record.bytes (etpRecordSize table.id))) := by
        simp only [slotCall, hlive, Option.elim_some]
      rw [hslot]
      refine ⟨mem', pages, r.pkIndex, [updateLog table.id key old record], ?_, hholds, honly', Or.inl rfl, ?_⟩
      · rw [OTable.nextId_update, hsame]
        exact hrun.bind (Runs.pure _)
      · simp only [CallLogs, hlive, Option.elim_some]
        exact ⟨old, rfl⟩
  | delete key =>
    cases hlive : (liveRows table.id T).get? key with
    | none =>
      have hslot : slotCall table.id T (.delete key) = (.changed (.error .errNotFound), T) := by
        simp only [slotCall, hlive, Option.elim_none]
      rw [hslot]
      refine ⟨mem, pages, _, [], hkeep ((h.visitRecord_missing hn hn' hlive).bind (Runs.pure _)), h, honly,
        Or.inl rfl, ?_⟩
      simp only [CallLogs, hlive, Option.elim_none]
    | some a =>
      obtain ⟨mem', old, hrun, hholds, honly'⟩ := h.delete hn hn' hready hlive
      have hslot : slotCall table.id T (.delete key) =
          (.changed (.ok ()), T.update key (deletedRecord table.id a)) := by
        simp only [slotCall, hlive, Option.elim_some]
      rw [hslot]
      refine ⟨mem', pages, _, [deleteLog table.id key old], ?_, hholds, honly', btreeDelete_moved _ _, ?_⟩
      · rw [OTable.nextId_update, hsame]
        exact hrun.bind (Runs.pure _)
      · simp only [CallLogs, hlive, Option.elim_some]
        exact ⟨old, rfl⟩
  | scan filter max =>
    exact ⟨mem, pages, _, [], hkeep ((h.scan hn hn' hfew filter max).bind (Runs.pure _)), h, honly,
      Or.inl rfl, rfl⟩
  | count =>
    exact ⟨mem, pages, _, [], hkeep ((h.count hn hn' hfew).bind (Runs.pure _)), h, honly, Or.inl rfl, rfl⟩

end Table

/-! ## All tables -/

/-- Every table holds its list of records, deleted ones included. -/
structure StoreHolds (n : Nat) (s : TableStore) (T : TableId → OTable Bytes) : Prop where
  distinct : Function.Injective s.fd
  next : ∀ id, s.nextId id = (T id).nextId ∧ (T id).nextId < 2 ^ 32
  saved : ∀ id, (s.index id).dirty = false → s.indexFile id = btreeFile (s.index id)
  tables : ∃ mem pages, Cached n mem pages s.pool s.files ∧
    ∀ id, TableHolds ⟨id, s.fd id⟩ (T id) mem pages (s.index id)

section Store

variable {n : Nat} {s : TableStore} {T : TableId → OTable Bytes}

/-- The records of one table after a call. -/
def slotCallAll (T : TableId → OTable Bytes) (c : TableId × RowCall) : TableId → OTable Bytes :=
  Function.update T c.1 (slotCall c.1 (T c.1) c.2).2

/-- What a call changes beside the records. -/
structure Called (s : TableStore) (T : TableId → OTable Bytes) (c : TableId × RowCall) (s' : TableStore) :
    Prop where
  moved : IndexMoved c.2.alloc (s.index c.1) (s'.index c.1)
  others : ∀ id, id ≠ c.1 → s'.index id = s.index id
  logged : ∃ recs, CallLogs c.1 (T c.1) recs c.2 ∧ s'.wal = recs.foldl Wal.logged s.wal
  fd : s'.fd = s.fd

/-- An insertion uses up an id, and no other call does. -/
theorem nextId_slotCall {id : TableId} {T : OTable Bytes} {c : RowCall} {t : BTree} {wal : Wal}
    (hids : T.nextId < 2 ^ 32) (hready : c.Ready T t wal) : (slotCall id T c).2.nextId < 2 ^ 32 := by
  cases c with
  | insert record alloc => exact hready.1
  | find key => exact hids
  | update key record =>
    simp only [slotCall]
    cases (liveRows id T).get? key <;> exact hids
  | delete key =>
    simp only [slotCall]
    cases (liveRows id T).get? key <;> exact hids
  | scan filter max => exact hids
  | count => exact hids

/-- **One call** returns what it does to the list of records, and leaves the other tables alone. -/
theorem StoreHolds.call (h : StoreHolds n s T) (hn : 0 < n) (hn' : n < 2 ^ 30) {c : TableId × RowCall}
    (hready : c.2.Ready (T c.1) (s.index c.1) s.wal) : ∃ s',
      s.call c = (.ok (slotCall c.1 (T c.1) c.2).1, s') ∧ StoreHolds n s' (slotCallAll T c) ∧
        Called s T c s' := by
  obtain ⟨id, c⟩ := c
  obtain ⟨mem, pages, hcached, htables⟩ := h.tables
  obtain ⟨hnext, hids⟩ := h.next id
  obtain ⟨mem', pages', t', recs, hrun, hholds, honly, hmoved, hlogs⟩ :=
    (htables id).call (r := ⟨s.index id, s.wal, s.nextId⟩) hn hn' hnext hids hready
  obtain ⟨_, e, hcall, rfl, hpool, hrest, -⟩ := hrun (s.env id) ⟨hcached, rfl, rfl⟩
  have hindex : e.pkIndex = t' := congrArg TableRest.pkIndex hrest
  have hwal : e.wal = recs.foldl Wal.logged s.wal := congrArg TableRest.wal hrest
  have hcounters : e.nextId = Function.update s.nextId id (slotCall id (T id) c).2.nextId :=
    congrArg TableRest.nextId hrest
  have hself : (s.put id e).index id = t' := (Function.update_self _ _ _).trans hindex
  have hother : ∀ id', id' ≠ id → (s.put id e).index id' = s.index id' :=
    fun id' hne => Function.update_of_ne hne _ _
  have hrows : ∀ id', id' ≠ id → slotCallAll T (id, c) id' = T id' :=
    fun id' hne => Function.update_of_ne hne _ _
  have hrow : slotCallAll T (id, c) id = (slotCall id (T id) c).2 := Function.update_self _ _ _
  refine ⟨s.put id e, ?_, ⟨h.distinct, fun id' => ?_, fun id' => ?_, mem', pages', hpool, fun id' => ?_⟩,
    ⟨hself ▸ hmoved, hother, ⟨recs, hlogs, hwal⟩, rfl⟩⟩
  · unfold TableStore.call
    rw [hcall]
  · have hid' : (s.put id e).nextId = e.nextId := rfl
    rw [hid', hcounters]
    rcases eq_or_ne id' id with rfl | hne
    · rw [Function.update_self, hrow]
      exact ⟨rfl, nextId_slotCall hids hready⟩
    · rw [Function.update_of_ne hne, hrows id' hne]
      exact h.next id'
  · rcases eq_or_ne id' id with rfl | hne
    · rw [hself]
      rcases hmoved with rfl | ⟨hdirty, -⟩
      · exact h.saved id'
      · intro hclean
        rw [hdirty] at hclean
        cases hclean
    · rw [hother id' hne]
      exact h.saved id'
  · rcases eq_or_ne id' id with rfl | hne
    · rw [hself, hrow]
      exact hholds
    · rw [hother id' hne, hrows id' hne]
      exact (htables id').frame honly fun heq => hne (h.distinct heq)

/-- Tables just created hold nothing. -/
theorem storeHolds_create (hn' : n < 2 ^ 30) {fd : TableId → Int} (hfd : Function.Injective fd) :
    StoreHolds n (tablesCreate n fd) fun _ => OTable.empty 1 := by
  refine ⟨hfd, fun _ => ⟨rfl, by decide⟩, fun _ _ => rfl, DataFiles.page fun _ => [], fun _ => 0,
    ⟨quiet_create hn' _, fun _ => Nat.zero_div _⟩,
    fun id => ⟨fun r hr => absurd hr List.not_mem_nil, Nat.one_pos, [], rfl, ?_, ?_⟩⟩
  · refine ⟨rfl, fun p recs hp => ?_, Paged.Filled.nil⟩
    cases hp
  · refine ⟨∅, (fullInv_create BTREE_DEFAULT_ORDER).saved, fun key ptr hptr => ?_, ?_⟩
    · rw [Finmap.lookup_empty] at hptr
      cases hptr
    · rintro p s key r ⟨recs, hp, -⟩
      cases hp

end Store

end Ticketing
