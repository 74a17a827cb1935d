import Ticketing.Storage.Wal

/-!
# What the log gives back (`wal_append` against `wal_recover`)

The encoder and the parser of the log, over whole runs.

* `encodeAll` / `replays` — the bytes of a sequence of appended records and the callbacks they
  deserve; `appendAll_file` shows that a fault-free run writes exactly `encodeAll`.
* `walRecoverLoop_append` — the parser eats complete records one by one and leaves the rest.
* `walRecoverLoop_take` — on a truncated log it replays the complete records and nothing else.
* `walRecover_take` — **decode undoes encode on every prefix** of a log written by the
  `wal_log_*` calls.
-/

set_option autoImplicit false

namespace Ticketing

open Bytes

/-- Recovery finds memory for the two images of every record; where it does not, `wal_recover` stops. -/
def memOk : Nat → Bool := fun _ => true

/-- The callback a complete record deserves. -/
def WalRecord.replay (r : WalRecord) (lsn : UInt64) : Replay :=
  if r.dataSize = 0 then ⟨r.header lsn, none, none⟩
  else ⟨r.header lsn, some r.oldImage.1, some r.newImage.1⟩

/-- The bytes of successive records with successive LSNs. -/
def encodeAll : UInt64 → List WalRecord → Bytes
  | _, [] => []
  | lsn, r :: rs => r.encode lsn ++ encodeAll (lsn + 1) rs

/-- The callbacks of successive records with successive LSNs. -/
def replays : UInt64 → List WalRecord → List Replay
  | _, [] => []
  | lsn, r :: rs => r.replay lsn :: replays (lsn + 1) rs

/-- A fault-free run of `wal_append` calls. -/
def appendAll (wal : Wal) (rs : List WalRecord) : Wal :=
  rs.foldl (fun w r => (walAppend w r IoScript.ok).2.1) wal

theorem appendAll_file (wal : Wal) (rs : List WalRecord) :
    (appendAll wal rs).file = wal.file ++ encodeAll wal.nextLsn rs := by
  induction rs generalizing wal with
  | nil => simp [appendAll, encodeAll]
  | cons r rs ih =>
    have := ih (walAppend wal r IoScript.ok).2.1
    simp only [appendAll, List.foldl_cons, walAppend_ok] at this ⊢
    rw [this, encodeAll, List.append_assoc]

theorem encodeAll_append (lsn : UInt64) (rs ss : List WalRecord) :
    encodeAll lsn (rs ++ ss) =
      encodeAll lsn rs ++ encodeAll (lsn + UInt64.ofNat rs.length) ss := by
  induction rs generalizing lsn with
  | nil => simp [encodeAll]
  | cons r rs ih =>
    have : lsn + 1 + UInt64.ofNat rs.length = lsn + UInt64.ofNat (rs.length + 1) := by
      rw [UInt64.ofNat_add, UInt64.add_assoc, UInt64.add_comm 1]
      rfl
    simp only [List.cons_append, encodeAll, ih, this, List.append_assoc, List.length_cons]

theorem replays_append (lsn : UInt64) (rs ss : List WalRecord) :
    replays lsn (rs ++ ss) = replays lsn rs ++ replays (lsn + UInt64.ofNat rs.length) ss := by
  induction rs generalizing lsn with
  | nil => simp [replays]
  | cons r rs ih =>
    have : lsn + 1 + UInt64.ofNat rs.length = lsn + UInt64.ofNat (rs.length + 1) := by
      rw [UInt64.ofNat_add, UInt64.add_assoc, UInt64.add_comm 1]
      rfl
    simp only [List.cons_append, replays, ih, this, List.length_cons]

@[simp] theorem length_replays (lsn : UInt64) (rs : List WalRecord) :
    (replays lsn rs).length = rs.length := by
  induction rs generalizing lsn with
  | nil => rfl
  | cons r rs ih => simp [replays, ih]

/-- LSNs stay below the wrap-around while `rs` is appended from `lsn` on. -/
def LsnRoom (lsn : UInt64) (rs : List WalRecord) : Prop :=
  0 < lsn.toNat ∧ lsn.toNat + rs.length < 2 ^ 64

theorem LsnRoom.ne_zero {lsn : UInt64} {rs : List WalRecord} (h : LsnRoom lsn rs) :
    lsn ≠ INVALID_LSN := by
  intro he
  have := h.1
  rw [he] at this
  exact absurd this (by decide)

theorem LsnRoom.tail {lsn : UInt64} {r : WalRecord} {rs : List WalRecord}
    (h : LsnRoom lsn (r :: rs)) : LsnRoom (lsn + 1) rs ∧ (lsn + 1).toNat = lsn.toNat + 1 := by
  obtain ⟨h0, h1⟩ := h
  simp only [List.length_cons] at h1
  have : (lsn + 1).toNat = lsn.toNat + 1 := by
    rw [UInt64.toNat_add]
    simp
    omega
  exact ⟨⟨by omega, by omega⟩, this⟩

/-! ## The parser on complete records -/

theorem slice_oldImage (r : WalRecord) (lsn : UInt64) (rest : Bytes) :
    slice WAL_HEADER_SIZE r.dataSize.toNat (r.encode lsn ++ rest) = r.oldImage.1 := by
  have := slice_append_right (r.header lsn).encode (r.oldImage.1 ++ (r.newImage.1 ++ rest)) 0
    r.dataSize.toNat
  simp only [WalHeader.length_encode, Nat.add_zero] at this
  rw [WalRecord.encode, List.append_assoc, List.append_assoc, this]
  simp [slice, ← r.oldImage.2]

theorem slice_newImage (r : WalRecord) (lsn : UInt64) (rest : Bytes) :
    slice (WAL_HEADER_SIZE + r.dataSize.toNat) r.dataSize.toNat (r.encode lsn ++ rest) =
      r.newImage.1 := by
  have := slice_append_right ((r.header lsn).encode ++ r.oldImage.1) (r.newImage.1 ++ rest) 0
    r.dataSize.toNat
  simp only [List.length_append, WalHeader.length_encode, r.oldImage.2, Nat.add_zero] at this
  have hassoc : r.encode lsn ++ rest =
      ((r.header lsn).encode ++ r.oldImage.1) ++ (r.newImage.1 ++ rest) := by
    simp [WalRecord.encode]
  rw [hassoc, this]
  simp [slice, ← r.newImage.2]

theorem decode_record (r : WalRecord) (lsn : UInt64) (rest : Bytes) :
    WalHeader.decode (r.encode lsn ++ rest) = r.header lsn := by
  rw [WalRecord.encode, List.append_assoc, WalHeader.decode_encode]

theorem drop_record (r : WalRecord) (lsn : UInt64) (rest : Bytes) :
    (r.encode lsn ++ rest).drop r.size = rest := by
  rw [← r.length_encode lsn, List.drop_left]

/-- One complete record: one callback, then the rest of the file. -/
theorem walRecoverLoop_record (r : WalRecord) {lsn : UInt64} (hl : lsn ≠ INVALID_LSN)
    (rest : Bytes) (fuel i : Nat) :
    walRecoverLoop memOk (fuel + 1) (r.encode lsn ++ rest) i =
      (r.replay lsn :: (walRecoverLoop memOk fuel rest (i + 1)).1,
        (walRecoverLoop memOk fuel rest (i + 1)).2) := by
  have hlen : ¬ (r.encode lsn ++ rest).length < WAL_HEADER_SIZE := by
    have := r.size_ge
    simp only [List.length_append, WalRecord.length_encode]; omega
  have hdrop := drop_record r lsn rest
  rw [walRecoverLoop, if_neg hlen]
  simp only [decode_record]
  rw [if_neg (show ¬ (r.header lsn).lsn = INVALID_LSN from hl)]
  by_cases h0 : r.dataSize = 0
  · have hs : r.size = WAL_HEADER_SIZE := by simp [WalRecord.size, h0]
    rw [hs] at hdrop
    rw [if_pos (show (r.header lsn).dataSize = 0 from h0), hdrop]
    simp [WalRecord.replay, h0]
  · rw [if_neg (show ¬ (r.header lsn).dataSize = 0 from h0)]
    have hd : (r.header lsn).dataSize = r.dataSize := rfl
    rw [hd, slice_oldImage, slice_newImage, ← WalRecord.size, hdrop]
    simp [memOk, r.oldImage.2, r.newImage.2, WalRecord.replay, h0]

/-- The parser eats complete records one by one. -/
theorem walRecoverLoop_append (rs : List WalRecord) : ∀ (lsn : UInt64) (tail : Bytes) (fuel i : Nat),
    LsnRoom lsn rs → (encodeAll lsn rs ++ tail).length ≤ fuel →
    ∃ fuel', tail.length ≤ fuel' ∧
      walRecoverLoop memOk fuel (encodeAll lsn rs ++ tail) i =
        (replays lsn rs ++ (walRecoverLoop memOk fuel' tail (i + rs.length)).1,
          (walRecoverLoop memOk fuel' tail (i + rs.length)).2) := by
  induction rs with
  | nil =>
    intro lsn tail fuel i _ hf
    exact ⟨fuel, by simpa [encodeAll] using hf, by simp [encodeAll, replays]⟩
  | cons r rs ih =>
    intro lsn tail fuel i hl hf
    have hge := r.size_ge
    simp only [encodeAll, List.append_assoc, List.length_append, WalRecord.length_encode] at hf
    obtain ⟨f, rfl⟩ : ∃ f, fuel = f + 1 := ⟨fuel - 1, by unfold WAL_HEADER_SIZE at hge; omega⟩
    obtain ⟨fuel', hf', heq⟩ := ih (lsn + 1) tail f (i + 1) hl.tail.1
      (by simp only [List.length_append]; unfold WAL_HEADER_SIZE at hge; omega)
    refine ⟨fuel', hf', ?_⟩
    rw [encodeAll, List.append_assoc, walRecoverLoop_record r hl.ne_zero, heq]
    simp [replays, Nat.add_assoc, Nat.add_comm 1]

/-- A proper prefix of a record is never replayed. -/
theorem walRecoverLoop_torn (r : WalRecord) (lsn : UInt64) {k : Nat} (hk : k < r.size)
    (fuel i : Nat) : walRecoverLoop memOk fuel ((r.encode lsn).take k) i = ([], true) := by
  cases fuel with
  | zero => rfl
  | succ fuel =>
    have hlen : ((r.encode lsn).take k).length = k := by
      simp only [List.length_take, WalRecord.length_encode]; omega
    rw [walRecoverLoop, hlen]
    split
    · rfl
    · rename_i hge
      -- the header is complete, so the cut falls into one of the payloads
      have hdec : WalHeader.decode ((r.encode lsn).take k) = r.header lsn := by
        have : (r.encode lsn).take k =
            (r.header lsn).encode ++ (r.oldImage.1 ++ r.newImage.1).take (k - WAL_HEADER_SIZE) := by
          rw [WalRecord.encode, List.take_append, WalHeader.length_encode,
            List.take_of_length_le (by simp; omega)]
        rw [this, WalHeader.decode_encode]
      have hd : (r.header lsn).dataSize = r.dataSize := rfl
      simp only [hdec, hd]
      split
      · rfl
      · have hne : ¬ r.dataSize = 0 := by
          intro h0
          simp only [WalRecord.size, h0] at hk
          have : (0 : UInt16).toNat = 0 := rfl
          omega
        rw [if_neg hne]
        simp only [memOk, Bool.not_true, Bool.false_eq_true, if_false]
        split
        · rfl
        · have hnew : (slice (WAL_HEADER_SIZE + r.dataSize.toNat) r.dataSize.toNat
              ((r.encode lsn).take k)).length ≠ r.dataSize.toNat := by
            simp only [slice, List.length_take, List.length_drop, hlen]
            unfold WalRecord.size at hk
            omega
          rw [if_pos hnew]

/-! ## Truncated logs -/

/-- The records that lie wholly within the first `k` bytes. -/
def wholeRecords : Nat → List WalRecord → List WalRecord
  | _, [] => []
  | k, r :: rs => if r.size ≤ k then r :: wholeRecords (k - r.size) rs else []

/-- What is left of the record the cut falls into. -/
def tornTail : UInt64 → Nat → List WalRecord → Bytes
  | _, _, [] => []
  | lsn, k, r :: rs =>
    if r.size ≤ k then tornTail (lsn + 1) (k - r.size) rs else (r.encode lsn).take k

theorem take_encodeAll (rs : List WalRecord) : ∀ (lsn : UInt64) (k : Nat),
    (encodeAll lsn rs).take k = encodeAll lsn (wholeRecords k rs) ++ tornTail lsn k rs := by
  induction rs with
  | nil => intro lsn k; simp [encodeAll, wholeRecords, tornTail]
  | cons r rs ih =>
    intro lsn k
    simp only [encodeAll, wholeRecords, tornTail]
    split
    · rename_i h
      rw [List.take_append, WalRecord.length_encode, ih,
        List.take_of_length_le (by simpa using h), encodeAll, List.append_assoc]
    · rename_i h
      rw [List.take_append_of_le_length (by simp; omega), encodeAll, List.nil_append]

theorem wholeRecords_eq_take_length (k : Nat) (rs : List WalRecord) :
    wholeRecords k rs = rs.take (wholeRecords k rs).length := by
  induction rs generalizing k with
  | nil => simp [wholeRecords]
  | cons r rs ih =>
    simp only [wholeRecords]
    split
    · simp only [List.length_cons, List.take_succ_cons]
      rw [← ih]
    · simp

theorem length_wholeRecords_le (k : Nat) (rs : List WalRecord) :
    (wholeRecords k rs).length ≤ rs.length := by
  rw [wholeRecords_eq_take_length k rs, List.length_take]
  omega

theorem LsnRoom.whole {lsn : UInt64} {rs : List WalRecord} (h : LsnRoom lsn rs) (k : Nat) :
    LsnRoom lsn (wholeRecords k rs) := by
  have := length_wholeRecords_le k rs
  exact ⟨h.1, by have := h.2; omega⟩

theorem walRecoverLoop_tornTail (rs : List WalRecord) : ∀ (lsn : UInt64) (k fuel i : Nat),
    walRecoverLoop memOk fuel (tornTail lsn k rs) i = ([], true) := by
  induction rs with
  | nil =>
    intro lsn k fuel i
    cases fuel <;> simp [tornTail, walRecoverLoop, WAL_HEADER_SIZE]
  | cons r rs ih =>
    intro lsn k fuel i
    simp only [tornTail]
    split
    · exact ih _ _ _ _
    · exact walRecoverLoop_torn r lsn (by omega) _ _

/-- **A truncated log replays its complete records and nothing else.** -/
theorem walRecoverLoop_take (rs : List WalRecord) (lsn : UInt64) (k fuel : Nat)
    (hl : LsnRoom lsn rs) (hf : ((encodeAll lsn rs).take k).length ≤ fuel) :
    walRecoverLoop memOk fuel ((encodeAll lsn rs).take k) 0 =
      (replays lsn (wholeRecords k rs), true) := by
  rw [take_encodeAll] at hf ⊢
  obtain ⟨fuel', _, heq⟩ := walRecoverLoop_append _ lsn (tornTail lsn k rs) fuel 0 (hl.whole k) hf
  rw [heq, walRecoverLoop_tornTail]
  simp

/-- How many of `rs` end at or before byte `k` of the log they make from scratch. -/
def endedBy (rs : List WalRecord) (k : Nat) : Nat :=
  ((List.range rs.length).filter
    (fun i => (appendAll walCreate (rs.take (i + 1))).file.length ≤ k)).length

theorem length_encodeAll (lsn : UInt64) (rs : List WalRecord) :
    (encodeAll lsn rs).length = (rs.map WalRecord.size).sum := by
  induction rs generalizing lsn with
  | nil => rfl
  | cons r rs ih => simp [encodeAll, ih]

theorem length_wholeRecords (k : Nat) (rs : List WalRecord) :
    (wholeRecords k rs).length =
      ((List.range rs.length).filter
        (fun i => ((rs.take (i + 1)).map WalRecord.size).sum ≤ k)).length := by
  induction rs generalizing k with
  | nil => rfl
  | cons r rs ih =>
    rw [List.length_cons, List.range_succ_eq_map, List.filter_cons, List.filter_map]
    simp only [wholeRecords, List.take_succ_cons, List.map_cons, List.sum_cons, List.take_zero,
      List.map_nil, List.sum_nil, Nat.add_zero, decide_eq_true_eq]
    split
    · rename_i h
      rw [List.length_cons, ih, List.length_cons, List.length_map]
      congr 2
      apply List.filter_congr
      intro i _
      simp only [Function.comp_apply, Nat.succ_eq_add_one, decide_eq_decide]
      omega
    · rename_i h
      -- the first record already ends past `k`, so no later one ends before it
      rw [List.length_nil, List.length_map, eq_comm, List.length_eq_zero_iff,
        List.filter_eq_nil_iff]
      intro i _
      simp only [Function.comp_apply, decide_eq_true_eq]
      omega

theorem wholeRecords_eq_take (k : Nat) (rs : List WalRecord) :
    wholeRecords k rs = rs.take (endedBy rs k) := by
  rw [wholeRecords_eq_take_length k rs, length_wholeRecords]
  simp [endedBy, appendAll_file, length_encodeAll, walCreate]

/-! ## Decode undoes encode -/

/-- One call of the logging interface. -/
inductive LogCall where
  | insert (txn : UInt32) (table : TableId) (recordId : UInt32) (size : UInt16)
      (newData : Image size)
  | update (txn : UInt32) (table : TableId) (recordId : UInt32) (size : UInt16)
      (oldData newData : Image size)
  | delete (txn : UInt32) (table : TableId) (recordId : UInt32) (size : UInt16)
      (oldData : Image size)
  | commit (txn : UInt32)
  | abort (txn : UInt32)
  | checkpoint

/-- Run one `wal_log_*` call. -/
def walLog (wal : Wal) (io : IoScript) : LogCall → UInt64 × Wal × IoScript
  | .insert txn table rid size new => walLogInsert wal txn table rid size new io
  | .update txn table rid size old new => walLogUpdate wal txn table rid size old new io
  | .delete txn table rid size old => walLogDelete wal txn table rid size old io
  | .commit txn => walLogCommit wal txn io
  | .abort txn => walLogAbort wal txn io
  | .checkpoint => walLogCheckpoint wal io

/-- The log after a fault-free sequence of calls on a fresh WAL. -/
def logAll (calls : List LogCall) : Wal :=
  calls.foldl (fun w c => (walLog w IoScript.ok c).2.1) walCreate

/-- The pointer the callback gets for an image: `NULL` when there is no data. -/
def imagePtr (size : UInt16) (b : Bytes) : Option Bytes := if size = 0 then none else some b

/-- What the replay callback must be given for a logged call. -/
def LogCall.callback : LogCall → UInt64 → Replay
  | .insert txn table rid size new, lsn =>
    ⟨⟨lsn, txn, WalOp.insert.code, UInt8.ofNat table.code, size, rid⟩,
      imagePtr size (List.replicate size.toNat 0), imagePtr size new.1⟩
  | .update txn table rid size old new, lsn =>
    ⟨⟨lsn, txn, WalOp.update.code, UInt8.ofNat table.code, size, rid⟩,
      imagePtr size old.1, imagePtr size new.1⟩
  | .delete txn table rid size old, lsn =>
    ⟨⟨lsn, txn, WalOp.delete.code, UInt8.ofNat table.code, size, rid⟩,
      imagePtr size old.1, imagePtr size (List.replicate size.toNat 0)⟩
  | .commit txn, lsn => ⟨⟨lsn, txn, WalOp.commit.code, 0, 0, 0⟩, none, none⟩
  | .abort txn, lsn => ⟨⟨lsn, txn, WalOp.abort.code, 0, 0, 0⟩, none, none⟩
  | .checkpoint, lsn => ⟨⟨lsn, 0, WalOp.checkpoint.code, 0, 0, 0⟩, none, none⟩

/-- The `wal_append` arguments of a call. -/
def LogCall.record : LogCall → WalRecord
  | .insert txn table rid size new => ⟨txn, .insert, table, rid, size, none, some new⟩
  | .update txn table rid size old new => ⟨txn, .update, table, rid, size, some old, some new⟩
  | .delete txn table rid size old => ⟨txn, .delete, table, rid, size, some old, none⟩
  | .commit txn => .marker .commit txn
  | .abort txn => .marker .abort txn
  | .checkpoint => .marker .checkpoint 0

theorem walLog_eq (wal : Wal) (io : IoScript) (c : LogCall) :
    walLog wal io c = walAppend wal c.record io := by
  cases c <;> rfl

theorem logAll_eq (calls : List LogCall) :
    logAll calls = appendAll walCreate (calls.map LogCall.record) := by
  simp [logAll, appendAll, List.foldl_map, walLog_eq]

theorem LogCall.replay_record (c : LogCall) (lsn : UInt64) :
    c.record.replay lsn = c.callback lsn := by
  cases c with
  | insert txn table rid size new =>
    by_cases h : size = 0 <;>
      simp [record, callback, WalRecord.replay, WalRecord.header, imagePtr, h,
        WalRecord.oldImage, WalRecord.newImage, Image.zeros]
  | update txn table rid size old new =>
    by_cases h : size = 0 <;>
      simp [record, callback, WalRecord.replay, WalRecord.header, imagePtr, h,
        WalRecord.oldImage, WalRecord.newImage]
  | delete txn table rid size old =>
    by_cases h : size = 0 <;>
      simp [record, callback, WalRecord.replay, WalRecord.header, imagePtr, h,
        WalRecord.oldImage, WalRecord.newImage, Image.zeros]
  | commit txn => rfl
  | abort txn => rfl
  | checkpoint => rfl

/-- The callbacks of a sequence of calls, numbered from `n`. -/
def callbacks (n : Nat) (calls : List LogCall) : List Replay :=
  (calls.zipIdx n).map (fun p => p.1.callback (UInt64.ofNat p.2))

theorem replays_records (calls : List LogCall) (n : Nat) :
    replays (UInt64.ofNat n) (calls.map LogCall.record) = callbacks n calls := by
  induction calls generalizing n with
  | nil => rfl
  | cons c calls ih =>
    have : UInt64.ofNat n + 1 = UInt64.ofNat (n + 1) := by rw [UInt64.ofNat_add]; rfl
    rw [List.map_cons, replays, this, ih, LogCall.replay_record]
    simp [callbacks]

theorem replays_take (rs : List WalRecord) : ∀ (lsn : UInt64) (n : Nat),
    replays lsn (rs.take n) = (replays lsn rs).take n := by
  induction rs with
  | nil => intro lsn n; simp [replays]
  | cons r rs ih =>
    intro lsn n
    cases n with
    | zero => rfl
    | succ n => simp [replays, ih]

/-- The number of calls whose record ends at or before byte `k` of the log file. -/
def callsEndedBy (calls : List LogCall) (k : Nat) : Nat :=
  ((List.range calls.length).filter (fun i => (logAll (calls.take (i + 1))).file.length ≤ k)).length

/-- **Decode undoes encode on every prefix.**  `wal_recover` on the first `k` bytes of a log
invokes the callback once, in order, for each record that ends at or before byte `k`, with LSNs
`1, 2, 3, ...` and the logged identifiers and images, and returns their number.  It finds memory for its
buffers. -/
theorem walRecover_take (calls : List LogCall) (k : Nat) (hn : calls.length < 2 ^ 31) :
    walRecover memOk ((logAll calls).file.take k) =
      ((callbacks 1 calls).take (callsEndedBy calls k), (callsEndedBy calls k : Int)) := by
  have hroom : LsnRoom 1 (calls.map LogCall.record) := by
    refine ⟨by decide, ?_⟩
    have : (1 : UInt64).toNat = 1 := rfl
    rw [List.length_map]; omega
  have hcount : callsEndedBy calls k = endedBy (calls.map LogCall.record) k := by
    simp [callsEndedBy, endedBy, logAll_eq, List.map_take]
  have hle : callsEndedBy calls k < 2 ^ 31 := by
    have := List.length_filter_le
      (fun i => decide ((logAll (calls.take (i + 1))).file.length ≤ k)) (List.range calls.length)
    simp only [List.length_range] at this
    unfold callsEndedBy; omega
  have hfile : (logAll calls).file = encodeAll 1 (calls.map LogCall.record) := by
    rw [logAll_eq, appendAll_file]; rfl
  unfold walRecover
  simp only [hfile]
  rw [walRecoverLoop_take _ 1 k _ hroom (Nat.le_refl _), wholeRecords_eq_take, ← hcount,
    replays_take, show (1 : UInt64) = UInt64.ofNat 1 from rfl, replays_records]
  have hlen : ((callbacks 1 calls).take (callsEndedBy calls k)).length = callsEndedBy calls k := by
    have h1 : (callbacks 1 calls).length = calls.length := by simp [callbacks]
    have h2 := List.length_filter_le
      (fun i => decide ((logAll (calls.take (i + 1))).file.length ≤ k)) (List.range calls.length)
    simp only [List.length_range] at h2
    rw [List.length_take, h1]
    unfold callsEndedBy; omega
  rw [if_pos rfl, hlen, toCInt_of_lt hle]

/-- A log of one insertion and one commit, read back from its first 30 bytes. -/
theorem walRecover_take_two :
    ([.insert 0 .seats 7 2 ⟨[5, 6], rfl⟩, .commit 3] : List LogCall).length < 2 ^ 31 ∧
    walRecover memOk ((logAll [.insert 0 .seats 7 2 ⟨[5, 6], rfl⟩, .commit 3]).file.take 30) =
      ((callbacks 1 [.insert 0 .seats 7 2 ⟨[5, 6], rfl⟩, .commit 3]).take
        (callsEndedBy [.insert 0 .seats 7 2 ⟨[5, 6], rfl⟩, .commit 3] 30),
      (callsEndedBy [.insert 0 .seats 7 2 ⟨[5, 6], rfl⟩, .commit 3] 30 : Int)) :=
  ⟨by decide, walRecover_take _ 30 (by decide)⟩

end Ticketing
