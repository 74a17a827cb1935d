import Ticketing.Storage.Io

/-!
# Write-ahead log (`server/storage/wal.c`)

The log file is a byte string; `walAppend` writes a packed 20-byte header and, when the record
carries data, its before and after images; `walRecover` parses the file back.

* `walCreate`, `walOpen`, `walFlush` — lifecycle; `walOpen` re-derives the next LSN by scanning
  headers and *skipping* payloads with `lseek`, which does not fail past the end of the file.
* `walAppend` — each of its `write` calls may stop early (`IoScript`); the assigned LSN is
  consumed only when all of them are complete.
* `walRecover` — the self-delimiting parser; it stops at a short header, at LSN 0 and at a short
  payload, and gives up with `-1` when it cannot allocate the payload buffers.

`walAppend_ok` is the append in a fault-free run: the encoded record is appended and the LSN
advances by one.
-/

set_option autoImplicit false

namespace Ticketing

open Bytes

/-- `wal_record_header_t`. -/
structure WalHeader where
  lsn : UInt64
  txnId : UInt32
  opType : UInt8
  tableId : UInt8
  dataSize : UInt16
  recordId : UInt32
  deriving DecidableEq, Repr

/-- `sizeof(wal_record_header_t)`. -/
def WAL_HEADER_SIZE : Nat := 20

/-- The packed on-disk header. -/
def WalHeader.encode (h : WalHeader) : Bytes :=
  toLE 8 h.lsn.toNat ++ (toLE 4 h.txnId.toNat ++ (h.opType :: h.tableId ::
    (toLE 2 h.dataSize.toNat ++ toLE 4 h.recordId.toNat)))

/-- Reading the packed header off the front of a byte string. -/
def WalHeader.decode (b : Bytes) : WalHeader where
  lsn := UInt64.ofNat (ofLE (slice 0 8 b))
  txnId := UInt32.ofNat (ofLE (slice 8 4 b))
  opType := UInt8.ofNat (ofLE (slice 12 1 b))
  tableId := UInt8.ofNat (ofLE (slice 13 1 b))
  dataSize := UInt16.ofNat (ofLE (slice 14 2 b))
  recordId := UInt32.ofNat (ofLE (slice 16 4 b))

@[simp] theorem WalHeader.length_encode (h : WalHeader) : h.encode.length = WAL_HEADER_SIZE := by
  simp [WalHeader.encode, WAL_HEADER_SIZE]

theorem WalHeader.decode_encode (h : WalHeader) (rest : Bytes) :
    WalHeader.decode (h.encode ++ rest) = h := by
  obtain ⟨lsn, txn, op, tbl, sz, rid⟩ := h
  have h8 := lsn.toNat_lt
  have h4 := txn.toNat_lt
  have h2 := sz.toNat_lt
  have hr := rid.toNat_lt
  have e1 : ofLE (toLE 8 lsn.toNat) = lsn.toNat := ofLE_toLE_of_lt (by omega)
  have e2 : ofLE (toLE 4 txn.toNat) = txn.toNat := ofLE_toLE_of_lt (by omega)
  have e3 : ofLE (toLE 2 sz.toNat) = sz.toNat := ofLE_toLE_of_lt (by omega)
  have e4 : ofLE (toLE 4 rid.toNat) = rid.toNat := ofLE_toLE_of_lt (by omega)
  simp only [WalHeader.encode, WalHeader.decode, WalHeader.mk.injEq]
  refine ⟨?_, ?_, ?_, ?_, ?_, ?_⟩
  · have : slice 0 8 ((toLE 8 lsn.toNat ++ (toLE 4 txn.toNat ++ (op :: tbl ::
        (toLE 2 sz.toNat ++ toLE 4 rid.toNat)))) ++ rest) = toLE 8 lsn.toNat := by
      simp [slice, toLE]
    rw [this, e1, UInt64.ofNat_toNat]
  · have : slice 8 4 ((toLE 8 lsn.toNat ++ (toLE 4 txn.toNat ++ (op :: tbl ::
        (toLE 2 sz.toNat ++ toLE 4 rid.toNat)))) ++ rest) = toLE 4 txn.toNat := by
      simp [slice, toLE]
    rw [this, e2, UInt32.ofNat_toNat]
  · simp [slice, toLE, ofLE]
  · simp [slice, toLE, ofLE]
  · have : slice 14 2 ((toLE 8 lsn.toNat ++ (toLE 4 txn.toNat ++ (op :: tbl ::
        (toLE 2 sz.toNat ++ toLE 4 rid.toNat)))) ++ rest) = toLE 2 sz.toNat := by
      simp [slice, toLE]
    rw [this, e3, UInt16.ofNat_toNat]
  · have : slice 16 4 ((toLE 8 lsn.toNat ++ (toLE 4 txn.toNat ++ (op :: tbl ::
        (toLE 2 sz.toNat ++ toLE 4 rid.toNat)))) ++ rest) = toLE 4 rid.toNat := by
      simp [slice, toLE]
    rw [this, e4, UInt32.ofNat_toNat]

/-! ## Appending -/

/-- A data buffer of `n` bytes. -/
abbrev Image (n : UInt16) := { b : Bytes // b.length = n.toNat }

/-- What `calloc` hands out for an absent image. -/
def Image.zeros (n : UInt16) : Image n := ⟨List.replicate n.toNat 0, by simp⟩

/-- The arguments of one `wal_append` call; `none` is a `NULL` data pointer. -/
structure WalRecord where
  txnId : UInt32
  op : WalOp
  table : TableId
  recordId : UInt32
  dataSize : UInt16
  oldData : Option (Image dataSize)
  newData : Option (Image dataSize)

/-- `wal_t`: the log file and the LSN counters. -/
structure Wal where
  file : Bytes
  nextLsn : UInt64
  flushedLsn : UInt64
  deriving DecidableEq, Repr

namespace WalRecord

/-- The header `wal_append` builds. -/
def header (r : WalRecord) (lsn : UInt64) : WalHeader :=
  ⟨lsn, r.txnId, r.op.code, UInt8.ofNat r.table.code, r.dataSize, r.recordId⟩

/-- The before image written to the log: zeros when absent. -/
def oldImage (r : WalRecord) : Image r.dataSize := r.oldData.getD (Image.zeros _)

/-- The after image written to the log: zeros when absent. -/
def newImage (r : WalRecord) : Image r.dataSize := r.newData.getD (Image.zeros _)

/-- The bytes of a complete record. -/
def encode (r : WalRecord) (lsn : UInt64) : Bytes :=
  (r.header lsn).encode ++ (r.oldImage.1 ++ r.newImage.1)

/-- The length of a complete record. -/
def size (r : WalRecord) : Nat := WAL_HEADER_SIZE + 2 * r.dataSize.toNat

@[simp] theorem length_encode (r : WalRecord) (lsn : UInt64) : (r.encode lsn).length = r.size := by
  simp only [encode, size, List.length_append, WalHeader.length_encode, r.oldImage.2, r.newImage.2]
  omega

theorem size_ge (r : WalRecord) : WAL_HEADER_SIZE ≤ r.size := by
  unfold size; omega

end WalRecord

/-- `wal_append`: the LSN, or `INVALID_LSN` when one of the writes falls short. -/
def walAppend (wal : Wal) (r : WalRecord) (io : IoScript) : UInt64 × Wal × IoScript :=
  let w1 := osWrite wal.file (r.header wal.nextLsn).encode (io 0)
  if !w1.2 then (INVALID_LSN, { wal with file := w1.1 }, io.drop 1)
  else if r.dataSize = 0 then
    (wal.nextLsn, { wal with file := w1.1, nextLsn := wal.nextLsn + 1 }, io.drop 1)
  else
    -- a failing `calloc` of the zero padding ends like a write that stores nothing
    let w2 := osWrite w1.1 r.oldImage.1 (io 1)
    if !w2.2 then (INVALID_LSN, { wal with file := w2.1 }, io.drop 2)
    else
      let w3 := osWrite w2.1 r.newImage.1 (io 2)
      if !w3.2 then (INVALID_LSN, { wal with file := w3.1 }, io.drop 3)
      else (wal.nextLsn, { wal with file := w3.1, nextLsn := wal.nextLsn + 1 }, io.drop 3)

/-- **A fault-free append** adds exactly the encoded record and consumes one LSN. -/
theorem walAppend_ok (wal : Wal) (r : WalRecord) :
    walAppend wal r IoScript.ok =
      (wal.nextLsn, { wal with file := wal.file ++ r.encode wal.nextLsn,
                               nextLsn := wal.nextLsn + 1 }, IoScript.ok) := by
  unfold walAppend
  by_cases h : r.dataSize = 0
  · have ho : r.oldImage.1 = [] := List.eq_nil_of_length_eq_zero (by rw [r.oldImage.2, h]; rfl)
    have hn : r.newImage.1 = [] := List.eq_nil_of_length_eq_zero (by rw [r.newImage.2, h]; rfl)
    simp [osWrite, h, WalRecord.encode, ho, hn]
  · simp [osWrite, h, WalRecord.encode]

/-- `wal_create`: an empty, truncated file. -/
def walCreate : Wal := ⟨[], 1, 0⟩

/-- `wal_log_insert`. -/
def walLogInsert (wal : Wal) (txn : UInt32) (table : TableId) (recordId : UInt32)
    (size : UInt16) (newData : Image size) (io : IoScript) : UInt64 × Wal × IoScript :=
  walAppend wal ⟨txn, .insert, table, recordId, size, none, some newData⟩ io

/-- `wal_log_update`. -/
def walLogUpdate (wal : Wal) (txn : UInt32) (table : TableId) (recordId : UInt32)
    (size : UInt16) (oldData newData : Image size) (io : IoScript) : UInt64 × Wal × IoScript :=
  walAppend wal ⟨txn, .update, table, recordId, size, some oldData, some newData⟩ io

/-- `wal_log_delete`. -/
def walLogDelete (wal : Wal) (txn : UInt32) (table : TableId) (recordId : UInt32)
    (size : UInt16) (oldData : Image size) (io : IoScript) : UInt64 × Wal × IoScript :=
  walAppend wal ⟨txn, .delete, table, recordId, size, some oldData, none⟩ io

/-- The record of a marker: no data, table 0, record 0. -/
def WalRecord.marker (op : WalOp) (txn : UInt32) : WalRecord := ⟨txn, op, .users, 0, 0, none, none⟩

/-- `wal_log_commit`. -/
def walLogCommit (wal : Wal) (txn : UInt32) (io : IoScript) : UInt64 × Wal × IoScript :=
  walAppend wal (.marker .commit txn) io

/-- `wal_log_abort`. -/
def walLogAbort (wal : Wal) (txn : UInt32) (io : IoScript) : UInt64 × Wal × IoScript :=
  walAppend wal (.marker .abort txn) io

/-- `wal_log_checkpoint`. -/
def walLogCheckpoint (wal : Wal) (io : IoScript) : UInt64 × Wal × IoScript :=
  walAppend wal (.marker .checkpoint 0) io

/-- `wal_flush`: `fsync`, then everything appended so far counts as flushed. -/
def walFlush (wal : Wal) : IoResult → Int × Wal
  | .ok => (0, { wal with flushedLsn := wal.nextLsn - 1 })
  | .short _ => (-1, wal)

/-! ## Reopening -/

/-- The scan loop of `wal_open`: the highest LSN of the headers met while skipping payloads.
The fuel bounds the number of headers and is never the reason to stop (`walOpen`). -/
def walOpenScan : Nat → Bytes → UInt64 → UInt64
  | 0, _, maxLsn => maxLsn
  | fuel + 1, b, maxLsn =>
    if b.length < WAL_HEADER_SIZE then maxLsn
    else
      let h := WalHeader.decode b
      walOpenScan fuel (b.drop (WAL_HEADER_SIZE + 2 * h.dataSize.toNat))
        (if maxLsn < h.lsn then h.lsn else maxLsn)

/-- `wal_open`: appends go to the physical end of the file, whatever the scan met. -/
def walOpen (file : Bytes) : Wal :=
  let maxLsn := walOpenScan file.length file 0
  ⟨file, maxLsn + 1, maxLsn⟩

/-! ## Recovery -/

/-- One invocation of the replay callback; `none` is a `NULL` data pointer. -/
structure Replay where
  header : WalHeader
  oldData : Option Bytes
  newData : Option Bytes
  deriving DecidableEq, Repr

/-- The loop of `wal_recover`.  `mem i` says whether the buffers of the `i`-th record can be
allocated; the flag of the result is `false` when they could not. -/
def walRecoverLoop (mem : Nat → Bool) : Nat → Bytes → Nat → List Replay × Bool
  | 0, _, _ => ([], true)
  | fuel + 1, b, i =>
    if b.length < WAL_HEADER_SIZE then ([], true)
    else
      let h := WalHeader.decode b
      let n := h.dataSize.toNat
      if h.lsn = INVALID_LSN then ([], true)
      else if h.dataSize = 0 then
        let r := walRecoverLoop mem fuel (b.drop WAL_HEADER_SIZE) (i + 1)
        (⟨h, none, none⟩ :: r.1, r.2)
      else if !mem i then ([], false)
      else
        let old := slice WAL_HEADER_SIZE n b
        let new := slice (WAL_HEADER_SIZE + n) n b
        if old.length ≠ n then ([], true)
        else if new.length ≠ n then ([], true)
        else
          let r := walRecoverLoop mem fuel (b.drop (WAL_HEADER_SIZE + 2 * n)) (i + 1)
          (⟨h, some old, some new⟩ :: r.1, r.2)

/-- `wal_recover`: the callback invocations, in order, and the return value. -/
def walRecover (mem : Nat → Bool) (file : Bytes) : List Replay × Int :=
  let r := walRecoverLoop mem file.length file 0
  (r.1, if r.2 then toCInt r.1.length else -1)

end Ticketing
