import Ticketing.Lib.Programs
import Ticketing.Storage.BTreeChecked
import Ticketing.Storage.BufferPool
import Ticketing.Storage.Wal

/-!
# Tables (`server/storage/table.c`)

A table keeps its records in the pages of a data file, which it only sees through the buffer pool, and
the places of its records in a B+ tree.  The functions are programs on what a call works on
(`TableEnv`); one that accesses a page beyond its end, or an array of the index beyond the allocated
size, fails with that access.

* `visitPage` — what all functions do with a page: fetch it, look at it, perhaps write it, unpin it.
* `tableInsertUnlocked`, `tableFindByIdUnlocked`, `tableUpdateUnlocked`, `tableDeleteUnlocked` — records by their key.
* `tableScanUnlocked`, `tableCountUnlocked` — all records.
* `tableOpen`, `tableClose` — the loop over the records of an existing file; the flush.

Messages to the log, the memory for `table_t` and `storage_mutex`, which makes every call run alone, are
left out.
-/

set_option autoImplicit false

namespace Ticketing

open Bytes

/-- `table_t`, without the pointers to what it shares. -/
structure Table where
  id : TableId
  dataFd : Int

/-- What a call works on: `pk_index`, the pool and the files behind it, the log, the counters of
`etp_next_id`, and how the input and output still to come will end. -/
structure TableEnv where
  pkIndex : BTree
  pool : BufferPool
  files : DataFiles
  wal : Wal
  nextId : TableId → Nat
  io : IoScript

/-- What the functions of the table layer do to the pool, the files, the log, the index and the counter. -/
inductive LayerStep where
  | fetch (pageId : Nat)
  | store (frame : Nat)
  | markDirty (pageId : Nat)
  | unpin (pageId : Nat)
  | alloc
  | flush
  | log
  | index
  | counter

/-- A function of the table layer. -/
abbrev TableProg (α : Type) := Prog LayerStep TableEnv BadAccess α

/-- The bytes from a pointer on. -/
abbrev Memory := Nat → UInt8

/-- The first bytes behind a pointer. -/
def Memory.bytes (m : Memory) (n : Nat) : Bytes := (List.range n).map m

theorem Memory.length_bytes (m : Memory) (n : Nat) : (m.bytes n).length = n := by
  rw [Memory.bytes, List.length_map, List.length_range]

/-- A pointer into a page. -/
def recordAt (page : Bytes) (off : Nat) : Memory := fun i => page.getD (off + i) 0

/-- The bytes that the log copies. -/
def recordImage (id : TableId) (m : Memory) : Image (UInt16.ofNat (etpRecordSize id)) :=
  ⟨m.bytes (UInt16.ofNat (etpRecordSize id)).toNat, m.length_bytes _⟩

/-- `record` with its primary key set. -/
def stampKey (id : TableId) (newId : Nat) (record : Memory) : Memory := fun i =>
  if keyOffset id ≤ i ∧ i < keyOffset id + 4 then (toLE 4 newId).getD (i - keyOffset id) 0
  else record i

/-- The primary key of a record in a page. -/
def storedKey (id : TableId) (page : Bytes) (off : Nat) : Nat := ofLE (slice (off + keyOffset id) 4 page)

theorem storedKey_lt (id : TableId) (page : Bytes) (off : Nat) : storedKey id page off < 2 ^ 32 := by
  have h := ofLE_lt (slice (off + keyOffset id) 4 page)
  have hlen : (slice (off + keyOffset id) 4 page).length ≤ 4 := by
    unfold slice
    rw [List.length_take]
    omega
  have hpow := Nat.pow_le_pow_right (show 0 < 256 by decide) hlen
  exact Nat.lt_of_lt_of_le h hpow

/-- `is_record_deleted`. -/
def isRecordDeleted (id : TableId) (page : Bytes) (off : Nat) : Bool :=
  page.getD (off + getDeletedFlagOffset id) 0 != 0

/-- `mark_record_deleted`. -/
def markRecordDeleted (id : TableId) (page : Bytes) (off : Nat) : Bytes :=
  splice (off + getDeletedFlagOffset id) [1] page

/-- `CURRENT_TXN_ID`. -/
def CURRENT_TXN_ID : UInt32 := 0

section Table

variable (table : Table)

/-! ## Steps -/

/-- `buffer_pool_fetch`. -/
def fetchPage (pageId : Nat) : TableProg (Option Nat) :=
  Prog.act (.fetch pageId) fun s =>
    let r := bufferPoolFetch s.pool s.files ⟨table.dataFd, pageId⟩ s.io
    (r.2.2, { s with pool := r.1, files := r.2.1, io := s.io.drop 2 })

/-- The page that the returned pointer leads to. -/
def pageAt (frame : Nat) : TableProg Bytes := Prog.reads fun s => (s.pool.frames frame).buf

/-- Writes through the returned pointer. -/
def storePage (frame : Nat) (page : Bytes) : TableProg Unit :=
  Prog.act (.store frame) fun s =>
    ((), { s with pool := s.pool.setFrame frame { s.pool.frames frame with buf := page } })

/-- `buffer_pool_mark_dirty`. -/
def markPageDirty (pageId : Nat) : TableProg Unit :=
  Prog.act (.markDirty pageId) fun s => ((), { s with pool := bufferPoolMarkDirty s.pool ⟨table.dataFd, pageId⟩ })

/-- `buffer_pool_unpin`. -/
def unpinPage (pageId : Nat) : TableProg Unit :=
  Prog.act (.unpin pageId) fun s => ((), { s with pool := bufferPoolUnpin s.pool ⟨table.dataFd, pageId⟩ })

/-- `page_get_count`. -/
def pageCount : TableProg Nat := Prog.reads fun s => pageGetCount (s.files table.dataFd)

/-- `page_alloc`. -/
def allocPage : TableProg Nat :=
  Prog.act .alloc fun s =>
    let r := pageAlloc (s.files table.dataFd) (etpRecordSize table.id) (s.io 0)
    (r.2, { s with files := Function.update s.files table.dataFd r.1, io := s.io.drop 1 })

/-- `etp_next_id`. -/
def etpNextId : TableProg Nat :=
  Prog.act .counter fun s =>
    (s.nextId table.id,
      { s with nextId := Function.update s.nextId table.id ((s.nextId table.id + 1) % 2 ^ 32) })

/-- `etp_set_next_id`. -/
def etpSetNextId (next : Nat) : TableProg Unit :=
  Prog.act .counter fun s => ((), { s with nextId := Function.update s.nextId table.id next })

/-- A call of the log. -/
def walCall (log : Wal → IoScript → UInt64 × Wal × IoScript) : TableProg UInt64 :=
  Prog.act .log fun s =>
    let r := log s.wal s.io
    (r.1, { s with wal := r.2.1, io := r.2.2 })

/-- `btree_search` in `pk_index`. -/
def indexSearch (key : Nat) : TableProg (Option RecordPtr) := do
  let t ← Prog.reads TableEnv.pkIndex
  let r ← Prog.lift (btreeSearchChecked t key)
  pure (if r.1 = 0 then r.2 else none)

/-- `pk_index` becomes another tree. -/
def setIndex (t : BTree) : TableProg Unit := Prog.act .index fun s => ((), { s with pkIndex := t })

/-- `btree_insert` into `pk_index`. -/
def indexInsert (alloc : Nat → Bool) (key : Nat) (value : RecordPtr) : TableProg Int := do
  let t ← Prog.reads TableEnv.pkIndex
  let r ← Prog.lift (btreeInsertChecked alloc t key value)
  setIndex r.2
  pure r.1

/-- `btree_delete` in `pk_index`. -/
def indexDelete (key : Nat) : TableProg Unit := do
  let t ← Prog.reads TableEnv.pkIndex
  let r ← Prog.lift (btreeDeleteChecked t key)
  setIndex r.2

/-- `node_free` of the root, in `btree_close`. -/
def indexFree : TableProg Unit := do
  let t ← Prog.reads TableEnv.pkIndex
  Prog.lift (nodeFreeChecked t.order t.root)

/-- What a visit writes, if it writes. -/
def writePage (pageId frame : Nat) : Option Bytes → TableProg Unit
  | none => pure ()
  | some page => do
    storePage frame page
    markPageDirty table pageId

/-- A page is fetched; unless that fails, `body` looks at it and perhaps has it written; it is
unpinned. -/
def visitPage {α : Type} (pageId : Nat) (fail : α) (body : Bytes → TableProg (α × Option Bytes)) :
    TableProg α := do
  match ← fetchPage table pageId with
  | none => pure fail
  | some frame => do
    let page ← pageAt frame
    let r ← body page
    writePage table pageId frame r.2
    unpinPage table pageId
    pure r.1

/-! ## Insertion -/

/-- `page_insert_record` on a page that is fetched for it: `none` if it cannot be fetched, and then the
slot, `none` for -1. -/
def placeRecord (record : Memory) (pageId : Nat) : TableProg (Option (Option Nat)) :=
  visitPage table pageId none fun page =>
    let r := pageInsertRecord page (record.bytes (pageRecordSize page))
    pure (some r.2, r.2.map fun _ => r.1)

/-- Step 5 of `table_insert`. -/
def indexRecord (alloc : Nat → Bool) (newId pageId slot : Nat) : TableProg EtpResult := do
  let rc ← indexInsert alloc newId ⟨pageId, slot % 2 ^ 16⟩
  pure (if rc = 0 then .ok else .errIo)

/-- The last page, if there is one that is not full. -/
def lastPage (pages : Nat) : TableProg Nat :=
  if 0 < pages then
    visitPage table (pages - 1) INVALID_PAGE_ID fun page =>
      pure (if pageIsFull page then INVALID_PAGE_ID else pages - 1, none)
  else pure INVALID_PAGE_ID

/-- Step 2 of `table_insert`: the last page unless it is full, else a new one. -/
def targetPage : TableProg Nat := do
  let pages ← pageCount table
  let last ← lastPage table pages
  if last = INVALID_PAGE_ID then allocPage table else pure last

/-- The rest of step 4 where the page turns out to be full. -/
def insertFallback (alloc : Nat → Bool) (newId : Nat) (record : Memory) : TableProg EtpResult := do
  let target ← allocPage table
  if target = INVALID_PAGE_ID then pure .errFull
  else do
    match ← placeRecord table record target with
    | none => pure .errIo
    | some none => pure .errFull
    | some (some slot) => indexRecord alloc newId target slot

/-- `table_insert`: the result and the id, which is `*out_id` if the result is `ETP_OK`. -/
def tableInsertUnlocked (alloc : Nat → Bool) (record : Memory) : TableProg (EtpResult × Nat) := do
  let newId ← etpNextId table
  let record := stampKey table.id newId record
  let target ← targetPage table
  if target = INVALID_PAGE_ID then pure (.errIo, newId)
  else do
    let lsn ← walCall fun wal io =>
      walLogInsert wal CURRENT_TXN_ID table.id (UInt32.ofNat newId) _ (recordImage table.id record) io
    if lsn = INVALID_LSN then pure (.errIo, newId)
    else do
      match ← placeRecord table record target with
      | none => pure (.errIo, newId)
      | some none => do
        let rc ← insertFallback table alloc newId record
        pure (rc, newId)
      | some (some slot) => do
        let rc ← indexRecord alloc newId target slot
        pure (rc, newId)

/-! ## One record -/

/-- The steps that `table_find_by_id`, `table_update` and `table_delete` share: the record of a key, if
there is one that is not deleted. -/
def visitRecord {α : Type} (key : Nat)
    (body : RecordPtr → Bytes → Nat → TableProg (Except EtpResult α × Option Bytes)) :
    TableProg (Except EtpResult α) := do
  match ← indexSearch key with
  | none => pure (.error .errNotFound)
  | some ptr =>
    visitPage table ptr.pageId (.error .errIo) fun page =>
      match pageGetRecord page ptr.slotId with
      | none => pure (.error .errNotFound, none)
      | some off => do
        Prog.lift (touch (off + getDeletedFlagOffset table.id) 1 PAGE_SIZE)
        if isRecordDeleted table.id page off then pure (.error .errNotFound, none)
        else body ptr page off

/-- The record that a pointer into a page leads to is read. -/
def readRecord (off : Nat) : TableProg Unit := Prog.lift (touch off (etpRecordSize table.id) PAGE_SIZE)

/-- `table_find_by_id`. -/
def tableFindByIdUnlocked (key : Nat) : TableProg (Except EtpResult Bytes) :=
  visitRecord table key fun _ page off => do
    readRecord table off
    pure (.ok (slice off (etpRecordSize table.id) page), none)

/-- `page_update_record` in `table_update`. -/
def updateInPage (record : Memory) (ptr : RecordPtr) (page : Bytes) (off : Nat) :
    TableProg (Except EtpResult Unit × Option Bytes) := do
  Prog.lift (touch off (pageRecordSize page) PAGE_SIZE)
  match pageUpdateRecord page ptr.slotId (record.bytes (pageRecordSize page)) with
  | none => pure (.error .errIo, none)
  | some page => pure (.ok (), some page)

/-- `table_update`. -/
def tableUpdateUnlocked (key : Nat) (record : Memory) : TableProg (Except EtpResult Unit) :=
  visitRecord table key fun ptr page off => do
    readRecord table off
    let lsn ← walCall fun wal io =>
      walLogUpdate wal CURRENT_TXN_ID table.id (UInt32.ofNat key) _
        (recordImage table.id (recordAt page off)) (recordImage table.id record) io
    if lsn = INVALID_LSN then pure (.error .errIo, none)
    else updateInPage record ptr page off

/-- `table_delete`. -/
def tableDeleteUnlocked (key : Nat) : TableProg (Except EtpResult Unit) :=
  visitRecord table key fun _ page off => do
    readRecord table off
    let lsn ← walCall fun wal io =>
      walLogDelete wal CURRENT_TXN_ID table.id (UInt32.ofNat key) _
        (recordImage table.id (recordAt page off)) io
    if lsn = INVALID_LSN then pure (.error .errIo, none)
    else do
      indexDelete key
      pure (.ok (), some (markRecordDeleted table.id page off))

/-! ## All records -/

/-- One turn of the loop over the slots in `table_scan`.  The filter gets the whole record. -/
def scanSlot (filter : Bytes → Bool) (max : Nat) (page : Bytes) (found : List Bytes) (slot : Nat) :
    TableProg (List Bytes) :=
  if max ≤ found.length then pure found
  else
    match pageGetRecord page slot with
    | none => pure found
    | some off => do
      Prog.lift (touch (off + getDeletedFlagOffset table.id) 1 PAGE_SIZE)
      if isRecordDeleted table.id page off then pure found
      else do
        readRecord table off
        let record := slice off (etpRecordSize table.id) page
        pure (if filter record then found ++ [record] else found)

/-- One turn of the loop over the pages in `table_scan`; a page that cannot be fetched is passed
over. -/
def scanPage (filter : Bytes → Bool) (max : Nat) (found : List Bytes) (pageId : Nat) :
    TableProg (List Bytes) :=
  if max ≤ found.length then pure found
  else
    visitPage table pageId found fun page => do
      let found ← Prog.fold (scanSlot table filter max page) found
        (List.range (pageGetRecordCount page))
      pure (found, none)

/-- `table_scan`. -/
def tableScanUnlocked (filter : Bytes → Bool) (max : Nat) : TableProg (List Bytes) := do
  let pages ← pageCount table
  Prog.fold (scanPage table filter max) [] (List.range pages)

/-- One turn of the loop over the slots in `table_count`. -/
def countSlot (page : Bytes) (count slot : Nat) : TableProg Nat :=
  match pageGetRecord page slot with
  | none => pure count
  | some off => do
    Prog.lift (touch (off + getDeletedFlagOffset table.id) 1 PAGE_SIZE)
    pure (if isRecordDeleted table.id page off then count else count + 1)

/-- One turn of the loop over the pages in `table_count`. -/
def countPage (count pageId : Nat) : TableProg Nat :=
  visitPage table pageId count fun page => do
    let count ← Prog.fold (countSlot table page) count (List.range (pageGetRecordCount page))
    pure (count, none)

/-- `table_count`. -/
def tableCountUnlocked : TableProg Nat := do
  let pages ← pageCount table
  Prog.fold (countPage table) 0 (List.range pages)

/-! ## Opening and closing -/

/-- One turn of the loop over the slots in `table_open`: the largest id so far, `none` once the
function has given up. -/
def openSlot (page : Bytes) (maxId : Option Nat) (slot : Nat) : TableProg (Option Nat) :=
  match maxId with
  | none => pure none
  | some maxId =>
    match pageGetRecord page slot with
    | none => pure (some maxId)
    | some off => do
      Prog.lift (touch (off + keyOffset table.id) 4 PAGE_SIZE)
      let recordId := storedKey table.id page off
      pure (if table.id = .bookingSeats ∧ recordId = 0 then none else some (max maxId recordId))

/-- One turn of the loop over the pages in `table_open`. -/
def openPage (maxId : Option Nat) (pageId : Nat) : TableProg (Option Nat) :=
  match maxId with
  | none => pure none
  | some maxId =>
    visitPage table pageId none fun page => do
      let maxId ← Prog.fold (openSlot table page) (some maxId) (List.range (pageGetRecordCount page))
      pure (maxId, none)

/-- `table_open` after the data file is open, with the bytes of the index file: whether it returns a
table. -/
def tableOpen (alloc : Nat → Bool) (index : Bytes) : TableProg Bool := do
  match ← Prog.lift (btreeOpenChecked alloc index) with
  | none => pure false
  | some t => do
    setIndex t
    let pages ← pageCount table
    match ← Prog.fold (openPage table) (some 0) (List.range pages) with
    | none => do
      indexFree
      pure false
    | some maxId =>
      if maxId = 2 ^ 32 - 1 then do
        indexFree
        pure false
      else do
        etpSetNextId table (maxId + 1)
        pure true

/-- `buffer_pool_flush_all` in `table_flush`. -/
def tableFlushUnlocked : TableProg Bool :=
  Prog.act .flush fun s =>
    let r := bufferPoolFlushAll s.pool s.files s.io
    (r.2.2, { s with pool := r.1, files := r.2.1, io := s.io.drop s.pool.numFrames })

/-- `table_close`: the index file that `btree_close` writes, if it does. -/
def tableClose : TableProg (Option Bytes) := do
  let _ ← tableFlushUnlocked
  let t ← Prog.reads TableEnv.pkIndex
  indexFree
  pure (if t.dirty then some (btreeSave t).2 else none)

end Table

/-! ## Programs beside the pool -/

/-- A program that neither looks at the pool and the files nor changes them. -/
structure Beside {α : Type} (p : TableProg α) : Prop where
  framed : ∀ s pool files, p { s with pool := pool, files := files } =
    (p s).map fun r => (r.1, { r.2 with pool := pool, files := files })
  unfetched : ∀ s pageId, ∀ m ∈ p.moments s, m.1 ≠ .fetch pageId

namespace Beside

variable {α β : Type} {p : TableProg α}

theorem pure (a : α) : Beside (Pure.pure a : TableProg α) :=
  ⟨fun _ _ _ => rfl, fun _ _ _ hm => absurd hm List.not_mem_nil⟩

theorem lift (r : Except BadAccess α) : Beside (Prog.lift r : TableProg α) := by
  refine ⟨fun s pool files => ?_, fun _ _ _ hm => absurd hm List.not_mem_nil⟩
  cases r <;> rfl

theorem bind {f : α → TableProg β} (hp : Beside p) (hf : ∀ a, Beside (f a)) : Beside (p >>= f) := by
  refine ⟨fun s pool files => ?_, fun s pageId m hm => ?_⟩
  · simp only [Bind.bind, hp.framed s pool files]
    cases hrun : p s with
    | error e => rfl
    | ok r => exact (hf r.1).framed r.2 pool files
  · simp only [Bind.bind, List.mem_append] at hm
    rcases hm with hfirst | hrest
    · exact hp.unfetched s pageId m hfirst
    · cases hrun : p s with
      | error e =>
        rw [hrun] at hrest
        exact absurd hrest List.not_mem_nil
      | ok r =>
        rw [hrun] at hrest
        exact (hf r.1).unfetched r.2 pageId m hrest

theorem index {f : BTree → TableProg α} (hf : ∀ t, Beside (f t)) :
    Beside (Prog.reads TableEnv.pkIndex >>= f) :=
  ⟨fun s pool files => (hf s.pkIndex).framed s pool files, fun s => (hf s.pkIndex).unfetched s⟩

/-- One step that is no fetch. -/
theorem act {l : LayerStep} {f : TableEnv → α × TableEnv} (hl : ∀ pageId, l ≠ .fetch pageId)
    (h : ∀ s pool files, f { s with pool := pool, files := files } =
      ((f s).1, { (f s).2 with pool := pool, files := files })) : Beside (Prog.act l f) := by
  refine ⟨fun s pool files => congrArg Except.ok (h s pool files), fun s pageId m hm => ?_⟩
  obtain rfl := List.mem_singleton.mp hm
  exact hl pageId

theorem setIndex (t : BTree) : Beside (Ticketing.setIndex t) := .act (fun _ => nofun) fun _ _ _ => rfl

theorem walCall (log : Wal → IoScript → UInt64 × Wal × IoScript) : Beside (Ticketing.walCall log) :=
  .act (fun _ => nofun) fun _ _ _ => rfl

theorem fold {f : β → α → TableProg β} {xs : List α} (hf : ∀ b x, Beside (f b x)) :
    ∀ b, Beside (Prog.fold f b xs) := by
  induction xs with
  | nil => exact fun b => pure b
  | cons x xs ih => exact fun b => bind (hf b x) fun b' => ih b'

/-- What it leaves. -/
theorem unchanged (hp : Beside p) {s s' : TableEnv} {a : α} (h : p s = .ok (a, s')) :
    s'.pool = s.pool ∧ s'.files = s.files := by
  have hself := hp.framed s s.pool s.files
  rw [show ({ s with pool := s.pool, files := s.files } : TableEnv) = s from rfl, h] at hself
  injection hself with hself
  exact ⟨congrArg (fun r => r.2.pool) hself, congrArg (fun r => r.2.files) hself⟩

end Beside

end Ticketing
