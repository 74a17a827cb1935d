import Ticketing.Storage.LogReplay
import Ticketing.Storage.PoolFaults

/-!
# The log is ahead of the pages

Every change that a page shows, in the pool or on disk, has its record in the log file: not only between
two calls, but before and after every step of a call, when a page may just have been written or evicted.

* `Logged`, `LogFirst` — a record whose last change is in the log; the pages show no others.
* `Still`, `Guarded` — a program that takes no step; a program that takes each step in such a state.
* `LogAhead` — the invariant of a run, with one lemma for each step.
-/

set_option autoImplicit false

namespace Ticketing

open Bytes BufferPool

/-! ## Records in the log -/

/-- The last change of the record is in the log: it was inserted or updated with these bytes, or it is a
record that was there before a deletion, marked. -/
def Logged (recs : List WalRecord) (id : TableId) (a : Bytes) : Prop :=
  ∃ r ∈ recs, r.table = id ∧ r.recordId = UInt32.ofNat (recordKey id a) ∧
    ((r.op = .insert ∨ r.op = .update) ∧ r.newImage.1 = a ∨ r.op = .delete ∧ deletedRecord id r.oldImage.1 = a)

/-- Every record in a page of the table is logged. -/
def PageLogged (recs : List WalRecord) (id : TableId) (page : Bytes) : Prop :=
  ∀ slot off, pageGetRecord page slot = some off → Logged recs id (slice off (etpRecordSize id) page)

/-- The log file is a sequence of complete records, and every record in a page of a table, in the pool or on
disk, is logged there. -/
def LogFirst (fd : TableId → Int) (s : TableEnv) : Prop :=
  ∃ recs, s.wal.file = encodeAll 1 recs ∧
    (∀ id i, i < s.pool.numFrames → (s.pool.frames i).valid = true → (s.pool.frames i).key.fd = fd id →
      PageLogged recs id (s.pool.frames i).buf) ∧
    ∀ id p, p < s.files.pages (fd id) → PageLogged recs id (s.files.page ⟨fd id, p⟩)

section Records

variable {recs : List WalRecord} {id : TableId} {a : Bytes}

theorem Logged.mono (h : Logged recs id a) (rs : List WalRecord) : Logged (recs ++ rs) id a := by
  obtain ⟨r, hr, hrest⟩ := h
  exact ⟨r, List.mem_append_left _ hr, hrest⟩

/-- An insertion or an update. -/
theorem logged_stored {op : WalOp} (hop : op = .insert ∨ op = .update) {key : Nat} {record : Memory}
    (old : Option (Image (UInt16.ofNat (etpRecordSize id))))
    (hkey : recordKey id (record.bytes (etpRecordSize id)) = key) :
    Logged (recs ++ [⟨CURRENT_TXN_ID, op, id, UInt32.ofNat key, UInt16.ofNat (etpRecordSize id), old,
      some (recordImage id record)⟩]) id (record.bytes (etpRecordSize id)) := by
  refine ⟨_, List.mem_append_right _ List.mem_cons_self, rfl, ?_, Or.inl ⟨hop, recordImage_val _⟩⟩
  rw [hkey]

theorem logged_deleteLog {key : Nat} {old : Memory}
    (hkey : recordKey id (old.bytes (etpRecordSize id)) = key) :
    Logged (recs ++ [deleteLog id key old]) id (deletedRecord id (old.bytes (etpRecordSize id))) := by
  refine ⟨_, List.mem_append_right _ List.mem_cons_self, rfl, ?_, Or.inr ⟨rfl, ?_⟩⟩
  · rw [recordKey_deletedRecord (old.length_bytes _), hkey]
    rfl
  · exact congrArg (deletedRecord id) (recordImage_val _)

/-- A page that holds logged records. -/
def HoldsLogged (recs : List WalRecord) (id : TableId) (page : Bytes) : Prop :=
  ∃ rs, PageHolds (etpRecordSize id) rs page ∧ ∀ a ∈ rs, Logged recs id a

variable {page : Bytes} {slot : Nat}

theorem HoldsLogged.mono (h : HoldsLogged recs id page) (rs : List WalRecord) :
    HoldsLogged (recs ++ rs) id page := by
  obtain ⟨as, hholds, hlogged⟩ := h
  exact ⟨as, hholds, fun a ha => (hlogged a ha).mono rs⟩

theorem HoldsLogged.length (h : HoldsLogged recs id page) : page.length = PAGE_SIZE := by
  obtain ⟨as, hholds, -⟩ := h
  exact hholds.length

theorem HoldsLogged.pageLogged (h : HoldsLogged recs id page) : PageLogged recs id page := by
  obtain ⟨as, hholds, hlogged⟩ := h
  intro slot off hoff
  rw [hholds.getRecord] at hoff
  split at hoff
  · cases hoff
  · rename_i hlt
    rw [Option.some.injEq] at hoff
    have hget : as[slot]? = some as[slot] := List.getElem?_eq_getElem (by omega)
    rw [← hoff, hholds.record slot _ hget]
    exact hlogged _ (List.getElem_mem _)

/-- The record that a slot of the page has. -/
theorem HoldsLogged.get (h : HoldsLogged recs id page) {slot off : Nat}
    (hoff : pageGetRecord page slot = some off) : ∃ as a, PageHolds (etpRecordSize id) as page ∧
      (∀ a ∈ as, Logged recs id a) ∧ as[slot]? = some a ∧ InPage id page slot a ∧
      off = recordOffset slot (etpRecordSize id) := by
  obtain ⟨as, hholds, hlogged⟩ := h
  rw [hholds.getRecord] at hoff
  split at hoff
  · cases hoff
  · rename_i hlt
    rw [Option.some.injEq] at hoff
    have hget : as[slot]? = some as[slot] := List.getElem?_eq_getElem (by omega)
    exact ⟨as, _, hholds, hlogged, hget, hholds.inPage hget, hoff.symm⟩

/-- A new page. -/
theorem holdsLogged_init (pageId : Nat) : HoldsLogged recs id (pageInitHeader pageId (etpRecordSize id)) := by
  have hsize : etpRecordSize id < 2 ^ 16 := by cases id <;> decide
  exact ⟨[], pageHolds_init pageId hsize, fun a ha => absurd ha List.not_mem_nil⟩

/-- Another record in a slot. -/
theorem holdsLogged_set {as : List Bytes} {slot : Nat} {a : Bytes}
    (hholds : PageHolds (etpRecordSize id) (as.set slot a) page) (hlogged : ∀ a ∈ as, Logged recs id a)
    (ha : Logged recs id a) : HoldsLogged recs id page := by
  refine ⟨_, hholds, fun b hb => ?_⟩
  rcases List.mem_or_eq_of_mem_set hb with hold | rfl
  · exact hlogged b hold
  · exact ha

/-- `page_insert_record` of a logged record. -/
theorem HoldsLogged.insert (h : HoldsLogged recs id page) {record : Memory}
    (hrecord : Logged recs id (record.bytes (etpRecordSize id))) {slot : Nat}
    (hslot : (pageInsertRecord page (record.bytes (pageRecordSize page))).2 = some slot) :
    HoldsLogged recs id (pageInsertRecord page (record.bytes (pageRecordSize page))).1 := by
  obtain ⟨as, hholds, hlogged⟩ := h
  rw [hholds.recordSize] at hslot ⊢
  rcases Nat.lt_or_ge as.length (pageGetMaxRecords (etpRecordSize id)) with hroom | hfull
  · obtain ⟨page', hwrite, hnew⟩ := hholds.insert hroom (record.length_bytes _)
    rw [hwrite]
    refine ⟨_, hnew, fun b hb => ?_⟩
    rcases List.mem_append.mp hb with hold | hlast
    · exact hlogged b hold
    · rw [List.mem_singleton.mp hlast]
      exact hrecord
  · rw [pageInsertRecord, hholds.count, hholds.recordSize, if_pos hfull] at hslot
    cases hslot

/-- `page_update_record` with a logged record. -/
theorem HoldsLogged.update (h : HoldsLogged recs id page) {record : Memory}
    (hrecord : Logged recs id (record.bytes (etpRecordSize id))) {slot : Nat} {page' : Bytes}
    (hwrite : pageUpdateRecord page slot (record.bytes (pageRecordSize page)) = some page') :
    HoldsLogged recs id page' := by
  obtain ⟨as, hholds, hlogged⟩ := h
  rw [hholds.recordSize] at hwrite
  rcases Nat.lt_or_ge slot as.length with hlt | hge
  · obtain ⟨page'', hwrite', hnew⟩ := hholds.update hlt (record.length_bytes _)
    rw [hwrite', Option.some.injEq] at hwrite
    exact holdsLogged_set (hwrite ▸ hnew) hlogged hrecord
  · rw [pageUpdateRecord, hholds.count, if_pos hge] at hwrite
    cases hwrite

/-- `mark_record_deleted` of a record whose deletion is logged. -/
theorem HoldsLogged.delete (h : HoldsLogged recs id page) {slot : Nat} {a : Bytes} (hin : InPage id page slot a)
    (ha : Logged recs id (deletedRecord id a)) :
    HoldsLogged recs id (markRecordDeleted id page (recordOffset slot (etpRecordSize id))) := by
  obtain ⟨as, b, hholds, hlogged, hget, hin', -⟩ := h.get hin.found
  have hsame : b = a := hin'.bytes.symm.trans hin.bytes
  have hflag : getDeletedFlagOffset id + [(1 : UInt8)].length ≤ etpRecordSize id := getDeletedFlagOffset_lt id
  rw [hsame] at hget
  exact holdsLogged_set (hholds.patch hget hflag) hlogged ha

/-- What `table_update` and `table_delete` log as the record before. -/
theorem InPage.recordAt_bytes (h : InPage id page slot a) :
    (recordAt page (recordOffset slot (etpRecordSize id))).bytes (etpRecordSize id) = a := by
  have hlen := h.length
  rw [← h.bytes] at hlen ⊢
  refine ext_getD (by rw [Memory.length_bytes, hlen]) fun i hi => ?_
  rw [Memory.length_bytes] at hi
  rw [getD_slice, if_pos hi, Memory.bytes, List.getD_eq_getElem?_getD, List.getElem?_map,
    List.getElem?_range hi]
  rfl

end Records

/-! ## The invariant -/

/-- The pool and the files of the tables have logged pages only, and no input or output is to fail. -/
structure LogAhead (n : Nat) (fd : TableId → Int) (pages : Int → Nat) (recs : List WalRecord) (s : TableEnv) :
    Prop where
  shape : PoolShape n s.pool
  io : s.io = IoScript.ok
  log : LogHolds recs s.wal
  lengths : ∀ id, s.files.pages (fd id) = pages (fd id)
  frames : ∀ i, s.pool.InUse n i → ∃ id, (s.pool.frames i).key.fd = fd id ∧
    (s.pool.frames i).key.pageId < pages (fd id) ∧ HoldsLogged recs id (s.pool.frames i).buf
  disk : ∀ id p, p < pages (fd id) → HoldsLogged recs id (s.files.page ⟨fd id, p⟩)

section Steps

variable {n : Nat} {fd : TableId → Int} {pages : Int → Nat} {recs : List WalRecord} {s : TableEnv}

theorem LogAhead.logFirst (h : LogAhead n fd pages recs s) (hfd : Function.Injective fd) : LogFirst fd s := by
  refine ⟨recs, h.log.file, fun id i hi hvalid hkey => ?_, fun id p hp => ?_⟩
  · rw [h.shape.numFrames] at hi
    obtain ⟨id', hkey', -, hlogged⟩ := h.frames i ⟨hi, hvalid⟩
    rw [hfd (hkey.symm.trans hkey')]
    exact hlogged.pageLogged
  · rw [h.lengths] at hp
    exact (h.disk id p hp).pageLogged

/-- What is neither in the pool nor in the files nor in the log does not matter. -/
theorem LogAhead.congr {s' : TableEnv} (h : LogAhead n fd pages recs s) (hpool : s'.pool = s.pool)
    (hfiles : s'.files = s.files) (hwal : s'.wal = s.wal) (hio : s'.io = s.io) :
    LogAhead n fd pages recs s' :=
  ⟨hpool ▸ h.shape, hio.trans h.io, hwal ▸ h.log, fun id => by rw [hfiles]; exact h.lengths id,
    fun i hi => by rw [hpool] at hi ⊢; exact h.frames i hi, fun id p hp => by rw [hfiles]; exact h.disk id p hp⟩

/-- Only the files of the tables matter. -/
theorem LogAhead.withPages {pages' : Int → Nat} (h : LogAhead n fd pages recs s)
    (hpages : ∀ id, pages (fd id) = pages' (fd id)) : LogAhead n fd pages' recs s := by
  refine ⟨h.shape, h.io, h.log, fun id => (h.lengths id).trans (hpages id), fun i hi => ?_, fun id p hp =>
    h.disk id p (hpages id ▸ hp)⟩
  obtain ⟨id, hkey, hin, hlogged⟩ := h.frames i hi
  exact ⟨id, hkey, hpages id ▸ hin, hlogged⟩

/-- The log grows. -/
theorem LogAhead.append (h : LogAhead n fd pages recs s) (r : WalRecord) :
    LogAhead n fd pages (recs ++ [r]) { s with wal := s.wal.logged r } := by
  refine ⟨h.shape, h.io, h.log.logged r, h.lengths, fun i hi => ?_, fun id p hp => (h.disk id p hp).mono [r]⟩
  obtain ⟨id, hkey, hin, hlogged⟩ := h.frames i hi
  exact ⟨id, hkey, hin, hlogged.mono [r]⟩

/-- The pool changes, and has logged pages still. -/
theorem LogAhead.withPool (h : LogAhead n fd pages recs s) {pool' : BufferPool} (hshape : PoolShape n pool')
    (hframes : ∀ i, pool'.InUse n i → ∃ id, (pool'.frames i).key.fd = fd id ∧
      (pool'.frames i).key.pageId < pages (fd id) ∧ HoldsLogged recs id (pool'.frames i).buf) :
    LogAhead n fd pages recs { s with pool := pool' } :=
  ⟨hshape, h.io, h.log, h.lengths, hframes, h.disk⟩

/-- One frame changes. -/
theorem LogAhead.setFrame (h : LogAhead n fd pages recs s) {i : Nat} {f : Frame}
    (hkey : f.key = (s.pool.frames i).key) (hvalid : f.valid = (s.pool.frames i).valid)
    (hbuf : ∀ id, f.key.fd = fd id → HoldsLogged recs id (s.pool.frames i).buf → HoldsLogged recs id f.buf) :
    LogAhead n fd pages recs { s with pool := s.pool.setFrame i f } := by
  refine h.withPool (h.shape.setFrame hkey hvalid) fun j hj => ?_
  rcases eq_or_ne j i with rfl | hne
  · have hself : (s.pool.setFrame j f).frames j = f := Function.update_self _ _ _
    rw [InUse, hself] at hj
    rw [hself]
    obtain ⟨id, hfd, hin, hlogged⟩ := h.frames j ⟨hj.1, hvalid ▸ hj.2⟩
    exact ⟨id, hkey ▸ hfd, hkey ▸ hin, hbuf id (hkey ▸ hfd) hlogged⟩
  · have hother : (s.pool.setFrame i f).frames j = s.pool.frames j := Function.update_of_ne hne _ _
    rw [InUse, hother] at hj
    rw [hother]
    exact h.frames j hj

variable (hfd : Function.Injective fd)
include hfd

/-- A page of a table's file is written to disk. -/
theorem LogAhead.write (h : LogAhead n fd pages recs s) {i : Nat} (hi : s.pool.InUse n i) :
    LogAhead n fd pages recs
      { s with files := (s.files.write (s.pool.frames i).key (s.pool.frames i).buf .ok).1 } := by
  obtain ⟨id, hkey, hin, hlogged⟩ := h.frames i hi
  have hinside : (s.pool.frames i).key.pageId < s.files.pages (s.pool.frames i).key.fd := by
    rw [hkey, h.lengths]
    exact hin
  refine ⟨h.shape, h.io, h.log, fun id' => ?_, h.frames, fun id' p hp => ?_⟩
  · exact (DataFiles.pages_write hlogged.length hinside _).trans (h.lengths id')
  · show HoldsLogged recs id' (DataFiles.page _ _)
    rw [DataFiles.page_write hlogged.length]
    split
    · rename_i hsame
      rw [← hsame] at hkey
      rw [hfd hkey]
      exact hlogged
    · exact h.disk id' p hp

/-- `_find_victim` writes a page at most. -/
theorem LogAhead.freed (h : LogAhead n fd pages recs s) (hn : 0 < n) (hn' : n < 2 ^ 30) {i : Nat}
    {pool' : BufferPool} {files' : DataFiles} (hfreed : Freed n s.pool s.files .ok i pool' files') :
    LogAhead n fd pages recs { s with pool := pool', files := files' } ∧ i < n ∧
      (pool'.frames i).valid = false ∧
      ∀ j, pool'.InUse n j → s.pool.InUse n j ∧ pool'.frames j = s.pool.frames j := by
  cases hfreed with
  | free hi hfree => exact ⟨h, hi, hfree, fun j hj => ⟨hj, rfl⟩⟩
  | evicted hi hpin _ _ =>
    have hwritten : LogAhead n fd pages recs { s with files := (s.pool.evict s.files i .ok).2 } := by
      simp only [BufferPool.evict]
      split
      · exact h.write hfd hi
      · exact h
    refine ⟨hwritten.withPool (h.shape.evict hn hn' hi s.files .ok) fun j hj => ?_, hi.1, evict_valid _ _ _,
      fun j hj => evict_inUse hj⟩
    obtain ⟨hj', hframe⟩ := evict_inUse hj
    rw [hframe]
    exact h.frames j hj'

/-- **A fetch** of an existing page. -/
theorem LogAhead.fetch (h : LogAhead n fd pages recs s) (hn : 0 < n) (hn' : n < 2 ^ 30) {id : TableId}
    {p : Nat} (hp : p < pages (fd id)) :
    LogAhead n fd pages recs { s with
      pool := (bufferPoolFetch s.pool s.files ⟨fd id, p⟩ s.io).1
      files := (bufferPoolFetch s.pool s.files ⟨fd id, p⟩ s.io).2.1
      io := s.io.drop 2 } ∧
      ∀ i, (bufferPoolFetch s.pool s.files ⟨fd id, p⟩ s.io).2.2 = some i →
        (bufferPoolFetch s.pool s.files ⟨fd id, p⟩ s.io).1.InUse n i ∧
          ((bufferPoolFetch s.pool s.files ⟨fd id, p⟩ s.io).1.frames i).key = ⟨fd id, p⟩ := by
  have hends := h.shape.fetchEnds hn hn' s.files ⟨fd id, p⟩ s.io
  have hdrop : s.io.drop 2 = s.io := by
    rw [h.io]
    rfl
  rw [hdrop]
  generalize bufferPoolFetch s.pool s.files ⟨fd id, p⟩ s.io = r at hends ⊢
  have hwrite : s.io 0 = .ok := by
    rw [h.io]
    rfl
  cases hends with
  | hit i hi hkey =>
    have hset := h.setFrame (i := i)
      (f := { s.pool.frames i with pinCount := ((s.pool.frames i).pinCount + 1) % 2 ^ 32 }) rfl rfl
      fun _ _ hlogged => hlogged
    have huse : (s.pool.setFrame i { s.pool.frames i with
        pinCount := ((s.pool.frames i).pinCount + 1) % 2 ^ 32 }).InUse n i := by
      refine ⟨hi.1, ?_⟩
      rw [setFrame_self]
      exact hi.2
    refine ⟨hset.withPool (hset.shape.lruTouch huse) hset.frames, fun j hj => ?_⟩
    cases hj
    refine ⟨huse, ?_⟩
    show ((s.pool.setFrame i _).frames i).key = _
    rw [setFrame_self]
    exact hkey
  | pinned _ _ => exact ⟨h, fun i hi => by cases hi⟩
  | unread _ hfreed hread => exact absurd (by rw [h.io]; rfl) hread
  | @loaded i pool' files' hnew hfreed hread =>
    rw [hwrite] at hfreed
    obtain ⟨hfreed', hi, hfree, hrest⟩ := h.freed hfd hn hn' hfreed
    have hnew' : ∀ j, pool'.InUse n j → (pool'.frames j).key ≠ ⟨fd id, p⟩ := fun j hj => by
      obtain ⟨hj', hframe⟩ := hrest j hj
      rw [hframe]
      exact hnew j hj'
    have hself : (((pool'.setFrame i ⟨files'.page ⟨fd id, p⟩, ⟨fd id, p⟩, 1, false, true⟩).mapInsert
        ⟨fd id, p⟩ i).lruPushFront i).frames i = ⟨files'.page ⟨fd id, p⟩, ⟨fd id, p⟩, 1, false, true⟩ :=
      Function.update_self _ _ _
    refine ⟨hfreed'.withPool (hfreed'.shape.load hn hn' hi hfree rfl rfl hnew') fun j hj => ?_, fun j hj => ?_⟩
    · rcases eq_or_ne j i with rfl | hne
      · rw [hself]
        exact ⟨id, rfl, hp, hfreed'.disk id p hp⟩
      · have hother : (((pool'.setFrame i ⟨files'.page ⟨fd id, p⟩, ⟨fd id, p⟩, 1, false, true⟩).mapInsert
            ⟨fd id, p⟩ i).lruPushFront i).frames j = pool'.frames j := Function.update_of_ne hne _ _
        rw [InUse, hother] at hj
        rw [hother]
        exact hfreed'.frames j hj
    · cases hj
      exact ⟨⟨hi, by rw [hself]⟩, by rw [hself]⟩

/-- **A new page.** -/
theorem LogAhead.alloc (h : LogAhead n fd pages recs s) {id : TableId} (hfew : pages (fd id) < 2 ^ 32) :
    (pageAlloc (s.files (fd id)) (etpRecordSize id) (s.io 0)).2 = pages (fd id) ∧
      LogAhead n fd (Function.update pages (fd id) (pages (fd id) + 1)) recs { s with
        files := Function.update s.files (fd id) (pageAlloc (s.files (fd id)) (etpRecordSize id) (s.io 0)).1
        io := s.io.drop 1 } := by
  have hsize : etpRecordSize id ≠ 0 := by cases id <;> decide
  have hlen := length_pageInitHeader (pages (fd id)) (etpRecordSize id)
  have hfile := h.lengths id
  have hcount : pageGetCount (s.files (fd id)) = pages (fd id) := by
    rw [← hfile] at hfew ⊢
    exact Nat.mod_eq_of_lt hfew
  have hio : s.io 0 = .ok := by rw [h.io]; rfl
  rw [pageAlloc, if_neg hsize, hcount, hio]
  refine ⟨rfl, h.shape, ?_, h.log, fun id' => ?_, fun i hi => ?_, fun id' p hp => ?_⟩
  · rw [h.io]
    rfl
  · have hpages := @DataFiles.pages_write_le s.files ⟨fd id, pages (fd id)⟩ _ hlen (Nat.le_of_eq hfile.symm)
      (fd id')
    dsimp only at hpages
    refine hpages.trans ?_
    rw [Function.update_apply, h.lengths, h.lengths]
    split
    · exact Nat.max_eq_right (Nat.le_succ _)
    · rfl
  · obtain ⟨id', hkey, hin, hlogged⟩ := h.frames i hi
    refine ⟨id', hkey, Nat.lt_of_lt_of_le hin ?_, hlogged⟩
    rw [Function.update_apply]
    split
    · rename_i hsame
      rw [hsame]
      exact Nat.le_succ _
    · exact Nat.le_refl _
  · have hpage := @DataFiles.page_write s.files ⟨fd id, pages (fd id)⟩ _ hlen ⟨fd id', p⟩
    refine hpage ▸ ?_
    split
    · rename_i hsame
      rw [hfd (PageKey.mk.inj hsame).1]
      exact holdsLogged_init _
    · rename_i hother
      refine h.disk id' p ?_
      rw [Function.update_apply] at hp
      split at hp
      · rename_i hsame
        have hne : p ≠ pages (fd id) := fun heq => hother (by rw [hsame, heq])
        rw [hsame]
        omega
      · exact hp

/-- A turn of a flush. -/
theorem LogAhead.flushFrame (h : LogAhead n fd pages recs s) {flag : Bool} {i : Nat} (hi : i < n) :
    LogAhead n fd pages recs { s with
      pool := (Ticketing.flushFrame s.io (s.pool, s.files, flag) i).1
      files := (Ticketing.flushFrame s.io (s.pool, s.files, flag) i).2.1 } := by
  have hio : s.io i = .ok := by rw [h.io]; rfl
  unfold Ticketing.flushFrame
  simp only [hio, DataFiles.write_ok, if_true]
  split
  · rename_i hdirty
    have hvalid := (Bool.and_eq_true _ _).mp hdirty
    have hwritten := h.write hfd ⟨hi, hvalid.1⟩
    exact hwritten.setFrame rfl rfl fun _ _ hlogged => hlogged
  · exact h

/-- **A flush** of all frames. -/
theorem LogAhead.flushAll (h : LogAhead n fd pages recs s) : LogAhead n fd pages recs { s with
    pool := (bufferPoolFlushAll s.pool s.files s.io).1
    files := (bufferPoolFlushAll s.pool s.files s.io).2.1
    io := s.io.drop s.pool.numFrames } := by
  have hdrop : s.io.drop s.pool.numFrames = s.io := by
    rw [h.io]
    rfl
  have hloop : ∀ m ≤ n, LogAhead n fd pages recs { s with
      pool := ((List.range m).foldl (Ticketing.flushFrame s.io) (s.pool, s.files, true)).1
      files := ((List.range m).foldl (Ticketing.flushFrame s.io) (s.pool, s.files, true)).2.1 } := by
    intro m hm
    induction m with
    | zero => exact h
    | succ m ih =>
      rw [List.range_succ, List.foldl_append, List.foldl_cons, List.foldl_nil]
      exact (ih (by omega)).flushFrame hfd hm
  unfold bufferPoolFlushAll
  rw [hdrop, h.shape.numFrames]
  exact hloop n (Nat.le_refl n)

omit hfd in
theorem LogAhead.markDirty (h : LogAhead n fd pages recs s) (k : PageKey) :
    LogAhead n fd pages recs { s with pool := bufferPoolMarkDirty s.pool k } := by
  unfold bufferPoolMarkDirty
  split
  · exact h
  · exact h.setFrame rfl rfl fun _ _ hlogged => hlogged

omit hfd in
theorem LogAhead.unpin (h : LogAhead n fd pages recs s) (k : PageKey) :
    LogAhead n fd pages recs { s with pool := bufferPoolUnpin s.pool k } := by
  unfold bufferPoolUnpin
  split
  · exact h
  · dsimp only
    split
    · exact h
    · exact h.setFrame rfl rfl fun _ _ hlogged => hlogged

/-- A store of a page whose records are logged. -/
theorem LogAhead.store (h : LogAhead n fd pages recs s) {i : Nat} {id : TableId} {p : Nat}
    (hkey : (s.pool.frames i).key = ⟨fd id, p⟩) {page : Bytes} (hpage : HoldsLogged recs id page) :
    LogAhead n fd pages recs
      { s with pool := s.pool.setFrame i { s.pool.frames i with buf := page } } := by
  refine h.setFrame rfl rfl fun id' hid' _ => ?_
  have hsame : (s.pool.frames i).key.fd = fd id := by rw [hkey]
  rw [hfd (hid'.symm.trans hsame)]
  exact hpage

end Steps

/-! ## Programs -/

/-- A computation that takes no step, and leaves the state. -/
structure Still {α : Type} (p : TableProg α) : Prop where
  quiet : ∀ s, p.moments s = []
  same : ∀ s a s', p s = .ok (a, s') → s' = s

section Still

variable {α β : Type}

theorem Still.pure (a : α) : Still (Pure.pure a : TableProg α) := by
  refine ⟨fun s => rfl, fun s a' s' h => ?_⟩
  cases h
  rfl

theorem Still.reads (f : TableEnv → α) : Still (Prog.reads f) := by
  refine ⟨fun s => rfl, fun s a' s' h => ?_⟩
  cases h
  rfl

theorem Still.lift (r : Except BadAccess α) : Still (Prog.lift r : TableProg α) := by
  refine ⟨fun s => rfl, fun s a' s' h => ?_⟩
  cases r with
  | error e => cases h
  | ok b =>
    cases h
    rfl

theorem Still.bind {p : TableProg α} {f : α → TableProg β} (hp : Still p) (hf : ∀ a, Still (f a)) :
    Still (p >>= f) := by
  refine ⟨fun s => Prog.bind_quiet hp.quiet fun a => (hf a).quiet, fun s b s' h => ?_⟩
  obtain ⟨a, s₁, hrun, hrest⟩ := Prog.bind_ok h
  rw [(hf a).same s₁ b s' hrest, hp.same s a s₁ hrun]

theorem Still.fold {f : β → α → TableProg β} {xs : List α} (hf : ∀ b x, Still (f b x)) :
    ∀ b, Still (Prog.fold f b xs) := by
  induction xs with
  | nil => exact fun b => Still.pure b
  | cons x xs ih => exact fun b => Still.bind (hf b x) fun b' => ih b'

theorem still_indexSearch (key : Nat) : Still (indexSearch key) :=
  (Still.reads _).bind fun _ => (Still.lift _).bind fun _ => Still.pure _

theorem still_indexFree : Still indexFree := (Still.reads _).bind fun _ => Still.lift _

theorem still_readRecord (table : Table) (off : Nat) : Still (readRecord table off) := Still.lift _

end Still

/-- From a state with `P` the program takes every step in a state in which the log is first, and ends with
`Q` unless it fails. -/
def Guarded (fd : TableId → Int) {α : Type} (P : TableEnv → Prop) (p : TableProg α)
    (Q : α → TableEnv → Prop) : Prop :=
  Prog.Along P p (fun _ => LogFirst fd) Q

/-- The invariant, with more in the log than at first. -/
def Later (n : Nat) (fd : TableId → Int) (pages : Int → Nat) (recs : List WalRecord) (s : TableEnv) : Prop :=
  ∃ rs, LogAhead n fd pages (recs ++ rs) s

/-- The invariant in a visit: frame `i` has page `k`. -/
structure AheadIn (n : Nat) (fd : TableId → Int) (pages : Int → Nat) (i : Nat) (k : PageKey)
    (recs : List WalRecord) (s : TableEnv) : Prop where
  ahead : LogAhead n fd pages recs s
  inUse : s.pool.InUse n i
  key : (s.pool.frames i).key = k

section Programs

variable {n : Nat} {fd : TableId → Int} {pages : Int → Nat} {recs : List WalRecord} {id : TableId}
  {α β : Type} {P : TableEnv → Prop} {Q : α → TableEnv → Prop}

theorem LogAhead.later {s : TableEnv} (h : LogAhead n fd pages recs s) : Later n fd pages recs s :=
  ⟨[], by rw [List.append_nil]; exact h⟩

theorem Later.trans {rs : List WalRecord} {s : TableEnv} (h : Later n fd pages (recs ++ rs) s) :
    Later n fd pages recs s := by
  obtain ⟨rs', hahead⟩ := h
  rw [List.append_assoc] at hahead
  exact ⟨rs ++ rs', hahead⟩

/-- A computation that leaves the state keeps what holds of it. -/
theorem Guarded.still {p : TableProg α} (hp : Still p) : Guarded fd P p fun _ => P :=
  Prog.Along.quiet hp.quiet fun s a s' hs hrun => by
    rw [hp.same s a s' hrun]
    exact hs

theorem Guarded.exists_pre {ι : Type} {R : ι → TableEnv → Prop} {p : TableProg α}
    (h : ∀ i, Guarded fd (R i) p Q) : Guarded fd (fun s => ∃ i, R i s) p Q :=
  fun s ⟨i, hs⟩ => h i s hs

theorem Guarded.and_pre {φ : Prop} {p : TableProg α} (h : φ → Guarded fd P p Q) :
    Guarded fd (fun s => φ ∧ P s) p Q := fun s ⟨hφ, hs⟩ => h hφ s hs

variable (hfd : Function.Injective fd)
include hfd

/-- A step from a state with the invariant. -/
theorem Guarded.step {l : LayerStep} {f : TableEnv → α × TableEnv}
    (hpre : ∀ s, P s → ∃ pages recs, LogAhead n fd pages recs s) (h : ∀ s, P s → Q (f s).1 (f s).2) :
    Guarded fd P (Prog.act l f) Q :=
  Prog.Along.act (fun s hs => by
    obtain ⟨pages, recs, hahead⟩ := hpre s hs
    exact hahead.logFirst hfd) h

/-- An append to the log. -/
theorem Guarded.log {R : List WalRecord → TableEnv → Prop} {x : WalRecord}
    {call : Wal → IoScript → UInt64 × Wal × IoScript} (hcall : ∀ wal io, call wal io = walAppend wal x io)
    (hpre : ∀ s, R recs s → LogAhead n fd pages recs s)
    (hpost : ∀ s, R recs s → R (recs ++ [x]) { s with wal := s.wal.logged x }) :
    Guarded fd (R recs) (walCall call) fun _ s => R (recs ++ [x]) s := by
  refine Guarded.step hfd (fun s hs => ⟨pages, recs, hpre s hs⟩) fun s hs => ?_
  have hio := (hpre s hs).io
  have hgrown := hpost s hs
  dsimp only
  rw [hcall, hio, walAppend_ok]
  rw [Wal.logged] at hgrown
  rw [← hio]
  exact hgrown

variable (recs) in
/-- **A visit** that writes a page only when its records are in the log. -/
theorem guarded_visit (F : Bytes → Prop) (Post : α → Prop) (hn : 0 < n) (hn' : n < 2 ^ 30) {pageId : Nat}
    (hp : pageId < pages (fd id)) {fail : α}
    {body : Bytes → TableProg (α × Option Bytes)} (hfail : Post fail)
    (hpre : ∀ s, P s → LogAhead n fd pages recs s ∧ ∀ i,
      (bufferPoolFetch s.pool s.files ⟨fd id, pageId⟩ s.io).2.2 = some i →
        F ((bufferPoolFetch s.pool s.files ⟨fd id, pageId⟩ s.io).1.frames i).buf)
    (hbody : ∀ i page, F page → HoldsLogged recs id page →
      Guarded fd (AheadIn n fd pages i ⟨fd id, pageId⟩ recs) (body page) fun r s =>
        ∃ rs, (Post r.1 ∧ ∀ page', r.2 = some page' → HoldsLogged (recs ++ rs) id page') ∧
          AheadIn n fd pages i ⟨fd id, pageId⟩ (recs ++ rs) s) :
    Guarded fd P (visitPage ⟨id, fd id⟩ pageId fail body) fun a s =>
      Post a ∧ Later n fd pages recs s := by
  have hfetch : Guarded fd P (fetchPage ⟨id, fd id⟩ pageId) fun r s =>
      LogAhead n fd pages recs s ∧
        ∀ i, r = some i → F (s.pool.frames i).buf ∧ AheadIn n fd pages i ⟨fd id, pageId⟩ recs s := by
    refine Guarded.step hfd (fun s hs => ⟨pages, recs, (hpre s hs).1⟩) fun s hs => ?_
    obtain ⟨hahead, hread⟩ := hpre s hs
    obtain ⟨hahead', hframe⟩ := hahead.fetch hfd hn hn' hp
    refine ⟨hahead', fun i hi => ?_⟩
    obtain ⟨huse, hkey⟩ := hframe i hi
    exact ⟨hread i hi, hahead', huse, hkey⟩
  refine Prog.Along.bind hfetch fun r => ?_
  cases r with
  | none => exact Prog.Along.pure fun s hs => ⟨hfail, hs.1.later⟩
  | some i =>
    have hlook : Guarded fd (fun s => LogAhead n fd pages recs s ∧ ∀ j, some i = some j →
          F (s.pool.frames j).buf ∧ AheadIn n fd pages j ⟨fd id, pageId⟩ recs s) (pageAt i)
        fun page s => (F page ∧ HoldsLogged recs id page) ∧ AheadIn n fd pages i ⟨fd id, pageId⟩ recs s := by
      refine Prog.Along.quiet (fun _ => rfl) (Prog.Ensures.reads fun s hs => ?_)
      obtain ⟨hread, hin⟩ := hs.2 i rfl
      obtain ⟨id', hkey, -, hlogged⟩ := hin.ahead.frames i hin.inUse
      rw [hin.key] at hkey
      rw [← hfd hkey] at hlogged
      exact ⟨⟨hread, hlogged⟩, hin⟩
    refine Prog.Along.bind hlook fun page => ?_
    rintro s ⟨⟨hread, hlogged⟩, hs⟩
    refine Prog.Along.bind (hbody i page hread hlogged) (fun r => Guarded.exists_pre fun rs => ?_) s hs
    rintro s ⟨⟨hpost, hpage⟩, hs⟩
    have hwrite : Guarded fd (AheadIn n fd pages i ⟨fd id, pageId⟩ (recs ++ rs))
        (writePage ⟨id, fd id⟩ pageId i r.2) fun _ => LogAhead n fd pages (recs ++ rs) := by
      cases hr : r.2 with
      | none => exact Prog.Along.pure fun s hs => hs.ahead
      | some page' =>
        rw [hr] at hpage
        have hstore : Guarded fd (AheadIn n fd pages i ⟨fd id, pageId⟩ (recs ++ rs)) (storePage i page')
            fun _ => LogAhead n fd pages (recs ++ rs) :=
          Guarded.step hfd (fun s hs => ⟨pages, _, hs.ahead⟩) fun s hs =>
            hs.ahead.store hfd hs.key (hpage page' rfl)
        refine Prog.Along.bind hstore fun _ => ?_
        exact Guarded.step hfd (fun s hs => ⟨pages, _, hs⟩) fun s hs => hs.markDirty _
    refine Prog.Along.bind hwrite (fun _ => Prog.Along.bind (R := fun _ => LogAhead n fd pages (recs ++ rs)) ?_
      fun _ => Prog.Along.pure fun s hs => ⟨hpost, rs, hs⟩) s hs
    exact Guarded.step hfd (fun s hs => ⟨pages, _, hs⟩) fun s hs => hs.unpin _

end Programs

end Ticketing
