import Ticketing.Txn.TxnManager
import Ticketing.Storage.WalRecovery

/-!
# Transaction outcomes in the log (`txn_commit`, `txn_abort`, restarts)

Runs of the transaction manager over one log file.  A step is one critical section of `tm->mutex`;
its label says how the `write` and the `fsync` inside it end.  A failed commit first leaves its
section and then calls `txn_abort` (`TxnStep.fallback`), so other threads may run in between.

* `SingleOutcome` — what recovery relies on: at most one COMMIT or ABORT per transaction id, and a
  COMMIT only for a commit that returned `0`.
* `OutcomeSafe` — when a step does not endanger it.
* `txnLog_singleOutcome` — runs of such steps keep it; `txnLog_two_outcomes` is a run that does not:
  the COMMIT is appended, its `fsync` fails, and the fallback appends an ABORT.
-/

set_option autoImplicit false

namespace Ticketing

/-! ## The system -/

/-- The manager, its log, the failed commits that still have to call `txn_abort`, and the finished
`txn_commit` calls with their return values. -/
structure TxnLog where
  tm : TxnManager
  wal : Wal
  pending : List UInt32
  commitCalls : List (UInt32 × Int)

/-- A fresh log and a fresh manager. -/
def TxnLog.init : TxnLog := ⟨txnMgrCreate, walCreate, [], []⟩

/-- One critical section, with the outcome of its system calls. -/
inductive TxnStep where
  | begin
  | commit (id : UInt32) (write fsync : IoResult)
  | fallback (n : Nat) (write : IoResult)
  | abort (id : UInt32) (write : IoResult)
  | lockCheck (id : UInt32) (key : LockKey)
  | lockRegister (id : UInt32) (key : LockKey)
  | restart
  deriving DecidableEq, Repr

/-- `txn_commit` up to the end of its critical section. -/
def txnCommit (tm : TxnManager) (wal : Wal) (id : UInt32) (write fsync : IoResult) :
    CommitOutcome × TxnManager × Wal :=
  match findTxnLocked tm id with
  | none => (.refused, tm, wal)
  | some _ =>
    let a := walLogCommit wal id (fun _ => write)
    if a.1 = INVALID_LSN then
      let r := txnCommitSection tm id false false
      (r.1, r.2, a.2.1)
    else
      let f := walFlush a.2.1 fsync
      let r := txnCommitSection tm id true (f.1 == 0)
      (r.1, r.2, f.2)

/-- `txn_abort` up to the end of its critical section; the log write is not checked. -/
def txnAbort (tm : TxnManager) (wal : Wal) (id : UInt32) (write : IoResult) : TxnManager × Wal :=
  match findTxnLocked tm id with
  | none => (tm, wal)
  | some _ => ((txnAbortSection tm id).2, (walLogAbort wal id (fun _ => write)).2.1)

/-- One step of the system. -/
def txnLogStep (s : TxnLog) : TxnStep → TxnLog
  | .begin => { s with tm := (txnBegin s.tm).2 }
  | .commit id write fsync =>
    let r := txnCommit s.tm s.wal id write fsync
    match r.1 with
    | .refused => { s with commitCalls := s.commitCalls ++ [(id, -1)] }
    | .failed => { s with tm := r.2.1, wal := r.2.2, pending := s.pending ++ [id] }
    | .committed _ =>
      { s with tm := r.2.1, wal := r.2.2, commitCalls := s.commitCalls ++ [(id, 0)] }
  | .fallback n write =>
    match s.pending[n]? with
    | none => s
    | some id =>
      let r := txnAbort s.tm s.wal id write
      { s with tm := r.1, wal := r.2, pending := s.pending.eraseIdx n,
               commitCalls := s.commitCalls ++ [(id, -1)] }
  | .abort id write =>
    let r := txnAbort s.tm s.wal id write
    { s with tm := r.1, wal := r.2 }
  | .lockCheck _ _ => s
  | .lockRegister id key =>
    match txnLockRegister s.tm id key with
    | none => s
    | some tm => { s with tm := tm }
  -- `wal_close`, `wal_open` on the same file, `txn_mgr_create`
  | .restart => { s with tm := txnMgrCreate, wal := walOpen s.wal.file, pending := [] }

/-- A run. -/
def txnLogRun (s : TxnLog) (steps : List TxnStep) : TxnLog := steps.foldl txnLogStep s

/-! ## The property -/

/-- The COMMIT and ABORT records of a transaction id in a log file, as recovery with enough memory reads it. -/
def outcomes (file : Bytes) (id : UInt32) : List Replay :=
  (walRecover memOk file).1.filter (fun r => r.header.txnId == id &&
    (r.header.opType == WalOp.commit.code || r.header.opType == WalOp.abort.code))

/-- At most one outcome per id, and COMMIT only if the commit returned `0`. -/
def SingleOutcome (s : TxnLog) : Prop :=
  ∀ id, (outcomes s.wal.file id).length ≤ 1 ∧
    ((∃ r ∈ outcomes s.wal.file id, r.header.opType = WalOp.commit.code) →
      (id, (0 : Int)) ∈ s.commitCalls)

/-- A `write` that stores the whole marker or nothing of it. -/
def WholeWrite (write : IoResult) : Prop := ∀ n, write = .short n → n = 0 ∨ WAL_HEADER_SIZE ≤ n

/-- The step neither reuses the id of a running or decided transaction, nor tears a record, nor
fails to flush a COMMIT it has appended.  A `txn_begin` that finds no free slot hands out no id. -/
def OutcomeSafe (s : TxnLog) : TxnStep → Prop
  | .begin => (∃ i, s.tm.txns i = none) →
      ¬ s.tm.Active s.tm.nextTxnId ∧ outcomes s.wal.file s.tm.nextTxnId = []
  | .commit id write fsync =>
    s.tm.Active id → WholeWrite write ∧ (write ≠ .short 0 → fsync = .ok)
  | .fallback _ write => WholeWrite write
  | .abort id write => s.tm.Active id → WholeWrite write
  | .lockCheck _ _ => True
  | .lockRegister _ _ => True
  | .restart => True

/-- Every step of the run is safe in the state it is taken in. -/
def SafeRun : TxnLog → List TxnStep → Prop
  | _, [] => True
  | s, a :: as => OutcomeSafe s a ∧ SafeRun (txnLogStep s a) as

/-! ## The log as a list of markers -/

/-- The bytes of markers with their LSNs. -/
def encodeMarkers : List (UInt64 × WalRecord) → Bytes
  | [] => []
  | p :: ps => p.2.encode p.1 ++ encodeMarkers ps

theorem encodeMarkers_append (ps qs : List (UInt64 × WalRecord)) :
    encodeMarkers (ps ++ qs) = encodeMarkers ps ++ encodeMarkers qs := by
  induction ps with
  | nil => rfl
  | cons p ps ih => simp [encodeMarkers, ih]

/-- What recovery gets to see: it stops at LSN 0. -/
def visible (ps : List (UInt64 × WalRecord)) : List (UInt64 × WalRecord) :=
  ps.takeWhile (fun p => p.1 != INVALID_LSN)

theorem visible_append (ps : List (UInt64 × WalRecord)) (p : UInt64 × WalRecord) :
    visible (ps ++ [p]) = visible ps ∨
      (p.1 ≠ INVALID_LSN ∧ visible (ps ++ [p]) = visible ps ++ [p]) := by
  induction ps with
  | nil =>
    by_cases h : p.1 = INVALID_LSN
    · left; simp [visible, h]
    · right; exact ⟨h, by simp [visible, h]⟩
  | cons q ps ih =>
    by_cases h : q.1 = INVALID_LSN
    · left; simp [visible, h]
    · have hcons : ∀ l, visible (q :: l) = q :: visible l := by
        intro l; simp [visible, h]
      rw [List.cons_append, hcons, hcons]
      rcases ih with ih | ⟨hp, ih⟩
      · left; rw [ih]
      · right; exact ⟨hp, by rw [ih]; rfl⟩

theorem walRecoverLoop_markers (ps : List (UInt64 × WalRecord)) : ∀ (fuel i : Nat),
    (encodeMarkers ps).length ≤ fuel →
    (walRecoverLoop memOk fuel (encodeMarkers ps) i).1 =
      (visible ps).map (fun p => p.2.replay p.1) := by
  induction ps with
  | nil =>
    intro fuel i _
    cases fuel <;> rfl
  | cons p ps ih =>
    intro fuel i hf
    rw [encodeMarkers, List.length_append, WalRecord.length_encode] at hf
    have hsize := p.2.size_ge
    match fuel, hf with
    | 0, hf => simp only [WAL_HEADER_SIZE] at hsize; omega
    | fuel + 1, hf =>
      by_cases h : p.1 = INVALID_LSN
      · have hlen : ¬ (p.2.encode p.1 ++ encodeMarkers ps).length < WAL_HEADER_SIZE := by
          rw [List.length_append, WalRecord.length_encode]; omega
        have hlsn : (p.2.header p.1).lsn = INVALID_LSN := h
        rw [encodeMarkers, walRecoverLoop, if_neg hlen]
        simp only [decode_record, hlsn, if_true]
        simp [visible, h]
      · rw [encodeMarkers, walRecoverLoop_record _ h]
        simp only [WAL_HEADER_SIZE] at hsize
        rw [ih fuel (i + 1) (by omega)]
        simp [visible, h]

/-- A marker record. -/
def IsOutcome (p : UInt64 × WalRecord) : Prop :=
  ∃ op id, p.2 = .marker op id ∧ (op = .commit ∨ op = .abort)

theorem outcomes_markers {ps : List (UInt64 × WalRecord)} (hm : ∀ p ∈ ps, IsOutcome p)
    (id : UInt32) :
    outcomes (encodeMarkers ps) id =
      ((visible ps).filter (fun p => p.2.txnId == id)).map (fun p => p.2.replay p.1) := by
  unfold outcomes walRecover
  simp only [walRecoverLoop_markers ps _ 0 (Nat.le_refl _)]
  rw [List.filter_map]
  congr 1
  apply List.filter_congr
  intro p hp
  obtain ⟨op, id', hp', hop⟩ := hm p ((List.takeWhile_sublist _).subset hp)
  rw [Function.comp_apply, hp']
  rcases hop with rfl | rfl <;> simp [WalRecord.marker, WalRecord.replay, WalRecord.header]

/-- A marker written whole is appended; written not at all, it leaves the log as it was. -/
theorem walAppend_marker {write : IoResult} (hw : WholeWrite write) (wal : Wal) (op : WalOp)
    (id : UInt32) :
    (write = .short 0 ∧ (walAppend wal (.marker op id) (fun _ => write)).1 = INVALID_LSN ∧
      (walAppend wal (.marker op id) (fun _ => write)).2.1 = wal) ∨
    (write ≠ .short 0 ∧ (walAppend wal (.marker op id) (fun _ => write)).1 = wal.nextLsn ∧
      (walAppend wal (.marker op id) (fun _ => write)).2.1 =
        { wal with file := wal.file ++ (WalRecord.marker op id).encode wal.nextLsn,
                   nextLsn := wal.nextLsn + 1 }) := by
  have henc : (WalRecord.marker op id).encode wal.nextLsn =
      ((WalRecord.marker op id).header wal.nextLsn).encode := by
    have ho : (WalRecord.marker op id).oldImage.1 = [] := rfl
    have hn : (WalRecord.marker op id).newImage.1 = [] := rfl
    rw [WalRecord.encode, ho, hn, List.append_nil, List.append_nil]
  have hsize : (WalRecord.marker op id).dataSize = 0 := rfl
  cases write with
  | ok =>
    right
    refine ⟨by simp, ?_, ?_⟩ <;> simp [walAppend, osWrite, hsize, henc]
  | short n =>
    rcases hw n rfl with rfl | hn
    · left
      refine ⟨rfl, ?_, ?_⟩ <;> simp [walAppend, osWrite, WAL_HEADER_SIZE]
    · right
      refine ⟨?_, ?_, ?_⟩
      · intro h; injection h with h; simp only [WAL_HEADER_SIZE] at hn; omega
      all_goals
        simp [walAppend, osWrite, hsize, henc, hn, List.take_of_length_le]

/-! ## The invariant -/

/-- The log is a list of markers; what recovery sees of it decides no running transaction, decides
every other at most once, and every COMMIT in it was acknowledged. -/
structure LogInv (s : TxnLog) (ps : List (UInt64 × WalRecord)) : Prop where
  file : s.wal.file = encodeMarkers ps
  marker : ∀ p ∈ ps, IsOutcome p
  distinct : s.tm.DistinctIds
  once : ∀ id, ((visible ps).filter (fun p => p.2.txnId == id)).length ≤ 1
  undecided : ∀ id, s.tm.Active id → ∀ p ∈ visible ps, p.2.txnId ≠ id
  acknowledged : ∀ p ∈ visible ps, p.2.op = .commit → (p.2.txnId, (0 : Int)) ∈ s.commitCalls

theorem LogInv.singleOutcome {s : TxnLog} {ps : List (UInt64 × WalRecord)} (inv : LogInv s ps) :
    SingleOutcome s := by
  intro id
  rw [inv.file, outcomes_markers inv.marker]
  refine ⟨by rw [List.length_map]; exact inv.once id, ?_⟩
  rintro ⟨r, hr, hop⟩
  obtain ⟨p, hp, rfl⟩ := List.mem_map.mp hr
  rw [List.mem_filter] at hp
  have hid : p.2.txnId = id := by simpa using hp.2
  have hcommit : p.2.op = .commit := by
    apply WalOp.code_injective
    obtain ⟨op, id', hp', -⟩ := inv.marker p ((List.takeWhile_sublist _).subset hp.1)
    rw [hp'] at hop ⊢
    simpa [WalRecord.replay, WalRecord.marker, WalRecord.header] using hop
  rw [← hid]
  exact inv.acknowledged p hp.1 hcommit

theorem txnMgrCreate_distinct : txnMgrCreate.DistinctIds := by
  intro i j t u hi; cases hi

theorem txnMgrCreate_not_active (id : UInt32) : ¬ txnMgrCreate.Active id := by
  rintro ⟨i, t, ht, -⟩; cases ht

theorem LogInv.init : LogInv TxnLog.init [] := by
  refine ⟨rfl, by simp, txnMgrCreate_distinct, by simp [visible], ?_, by simp [visible]⟩
  intro id h
  exact absurd h (txnMgrCreate_not_active id)

/-- Ending the slot of `id` while appending its outcome to the log. -/
theorem LogInv.append {s : TxnLog} {ps : List (UInt64 × WalRecord)} (inv : LogInv s ps)
    {id : UInt32} {i : Fin MAX_ACTIVE_TXNS} (hi : findTxnLocked s.tm id = some i) {op : WalOp}
    (hop : op = .commit ∨ op = .abort) (lsn : UInt64) {s' : TxnLog}
    (hfile : s'.wal.file = s.wal.file ++ (WalRecord.marker op id).encode lsn)
    (htm : s'.tm = s.tm.setSlot i none) (hcalls : ∀ c ∈ s.commitCalls, c ∈ s'.commitCalls)
    (hack : op = .commit → (id, (0 : Int)) ∈ s'.commitCalls) :
    LogInv s' (ps ++ [(lsn, .marker op id)]) := by
  obtain ⟨t, ht, htid⟩ := findTxnLocked_some hi
  have hund := inv.undecided id ⟨i, t, ht, htid⟩
  have hmem : ∀ p ∈ visible (ps ++ [(lsn, .marker op id)]),
      p ∈ visible ps ∨ p = (lsn, .marker op id) := by
    intro p hp
    rcases visible_append ps (lsn, .marker op id) with h | ⟨-, h⟩ <;> rw [h] at hp
    · exact Or.inl hp
    · simpa using hp
  refine ⟨?_, ?_, ?_, ?_, ?_, ?_⟩
  · rw [hfile, inv.file, encodeMarkers_append]; simp [encodeMarkers]
  · intro p hp
    rcases List.mem_append.mp hp with hp | hp
    · exact inv.marker p hp
    · rw [List.mem_singleton] at hp
      subst hp
      exact ⟨op, id, rfl, hop⟩
  · rw [htm]; exact TxnManager.setSlot_none_distinct inv.distinct i
  · intro id'
    rcases visible_append ps (lsn, .marker op id) with h | ⟨-, h⟩ <;> rw [h]
    · exact inv.once id'
    · rw [List.filter_append, List.length_append]
      by_cases hid : id' = id
      · -- the id had no outcome so far
        subst hid
        have hnil : (visible ps).filter (fun p => p.2.txnId == id') = [] := by
          rw [List.filter_eq_nil_iff]
          intro p hp
          simpa using hund p hp
        have hle := List.length_filter_le (fun p => p.2.txnId == id')
          [(lsn, WalRecord.marker op id')]
        rw [hnil, List.length_nil, Nat.zero_add]
        exact hle
      · have hnil : [(lsn, WalRecord.marker op id)].filter (fun p => p.2.txnId == id') = [] := by
          simp [WalRecord.marker, Ne.symm hid]
        rw [hnil]
        simpa using inv.once id'
  · intro id' hact p hp
    rw [htm] at hact
    rcases hmem p hp with hp | rfl
    · exact inv.undecided id' (TxnManager.setSlot_none_active hact) p hp
    · rintro rfl
      exact TxnManager.setSlot_none_ends inv.distinct hi hact
  · intro p hp hc
    rcases hmem p hp with hp | rfl
    · exact hcalls _ (inv.acknowledged p hp hc)
    · exact hack hc

/-- Steps that leave the log alone. -/
theorem LogInv.same_log {s s' : TxnLog} {ps : List (UInt64 × WalRecord)} (inv : LogInv s ps)
    (hfile : s'.wal.file = s.wal.file) (hd : s'.tm.DistinctIds)
    (hact : ∀ id, s'.tm.Active id → s.tm.Active id ∨ ∀ p ∈ visible ps, p.2.txnId ≠ id)
    (hcalls : ∀ c ∈ s.commitCalls, c ∈ s'.commitCalls) : LogInv s' ps := by
  refine ⟨by rw [hfile]; exact inv.file, inv.marker, hd, inv.once, ?_,
    fun p hp hc => hcalls _ (inv.acknowledged p hp hc)⟩
  intro id h
  rcases hact id h with h | h
  · exact inv.undecided id h
  · exact h

/-! ## Steps and runs -/

/-- `txn_begin` finds no free slot, or takes one. -/
theorem txnBegin_spec (tm : TxnManager) :
    (txnBegin tm).2 = tm ∨
    ∃ i, tm.txns i = none ∧
      (txnBegin tm).2 = { tm.setSlot i (some ⟨tm.nextTxnId, []⟩) with
        nextTxnId := bumpTxnId tm.nextTxnId } := by
  unfold txnBegin
  cases h : tm.firstSlot Option.isNone with
  | none => left; rfl
  | some i =>
    right
    refine ⟨i, ?_, rfl⟩
    have := TxnManager.firstSlot_some h
    simpa using this

theorem LogInv.begin {s : TxnLog} {ps : List (UInt64 × WalRecord)} (inv : LogInv s ps)
    (hsafe : OutcomeSafe s .begin) : LogInv (txnLogStep s .begin) ps := by
  rcases txnBegin_spec s.tm with h | ⟨i, hi, h⟩
  · refine inv.same_log rfl ?_ ?_ (fun c hc => hc)
    · simp only [txnLogStep, h]; exact inv.distinct
    · intro id hid
      simp only [txnLogStep, h] at hid
      exact Or.inl hid
  · obtain ⟨hact, hout⟩ := hsafe ⟨i, hi⟩
    have hnone : ∀ p ∈ visible ps, p.2.txnId ≠ s.tm.nextTxnId := by
      rw [inv.file, outcomes_markers inv.marker, List.map_eq_nil_iff, List.filter_eq_nil_iff] at hout
      intro p hp
      simpa using hout p hp
    have hslot : ∀ j, (txnLogStep s .begin).tm.txns j =
        (s.tm.setSlot i (some ⟨s.tm.nextTxnId, []⟩)).txns j := by
      intro j; simp only [txnLogStep, h]
    refine inv.same_log rfl ?_ ?_ (fun c hc => hc)
    · intro j k t u hj hk
      rw [hslot] at hj hk
      refine TxnManager.setSlot_some_distinct inv.distinct ?_ j k t u hj hk
      intro j u _ hu hid
      exact hact ⟨j, u, hu, hid⟩
    · rintro id ⟨j, t, ht, rfl⟩
      rw [hslot] at ht
      by_cases hj : j = i
      · subst hj
        rw [TxnManager.setSlot_same, Option.some.injEq] at ht
        subst ht
        exact Or.inr hnone
      · rw [TxnManager.setSlot_ne hj] at ht
        exact Or.inl ⟨j, t, ht, rfl⟩

/-- The section of `txn_abort` on its own and as the fallback of a failed commit. -/
theorem LogInv.abort {s s' : TxnLog} {ps : List (UInt64 × WalRecord)} (inv : LogInv s ps)
    {id : UInt32} {write : IoResult} (hw : s.tm.Active id → WholeWrite write)
    (htm : s'.tm = (txnAbort s.tm s.wal id write).1)
    (hwal : s'.wal = (txnAbort s.tm s.wal id write).2)
    (hcalls : ∀ c ∈ s.commitCalls, c ∈ s'.commitCalls) : ∃ ps', LogInv s' ps' := by
  unfold txnAbort at htm hwal
  cases hf : findTxnLocked s.tm id with
  | none =>
    simp only [hf] at htm hwal
    exact ⟨ps, inv.same_log (by rw [hwal]) (by rw [htm]; exact inv.distinct)
      (fun id h => Or.inl (by rw [htm] at h; exact h)) hcalls⟩
  | some i =>
    simp only [hf, txnAbortSection] at htm hwal
    obtain ⟨t, ht, htid⟩ := findTxnLocked_some hf
    rcases walAppend_marker (hw ⟨i, t, ht, htid⟩) s.wal .abort id with ⟨-, -, h⟩ | ⟨-, -, h⟩
    · -- the ABORT record was not written; the slot is freed all the same
      refine ⟨ps, inv.same_log ?_ ?_ ?_ hcalls⟩
      · rw [hwal, walLogAbort, h]
      · rw [htm]; exact TxnManager.setSlot_none_distinct inv.distinct i
      · intro id h
        rw [htm] at h
        exact Or.inl (TxnManager.setSlot_none_active h)
    · refine ⟨_, inv.append hf (Or.inr rfl) s.wal.nextLsn ?_ htm hcalls (fun h => by cases h)⟩
      rw [hwal, walLogAbort, h]

theorem LogInv.commit {s : TxnLog} {ps : List (UInt64 × WalRecord)} (inv : LogInv s ps)
    {id : UInt32} {write fsync : IoResult} (hsafe : OutcomeSafe s (.commit id write fsync)) :
    ∃ ps', LogInv (txnLogStep s (.commit id write fsync)) ps' := by
  have hmore : ∀ x, ∀ c ∈ s.commitCalls, c ∈ s.commitCalls ++ [x] :=
    fun x c hc => List.mem_append_left _ hc
  cases hf : findTxnLocked s.tm id with
  | none =>
    simp only [txnLogStep, txnCommit, hf]
    exact ⟨ps, inv.same_log rfl inv.distinct (fun id h => Or.inl h) (hmore _)⟩
  | some i =>
    obtain ⟨t, ht, htid⟩ := findTxnLocked_some hf
    obtain ⟨hw, hflush⟩ := hsafe ⟨i, t, ht, htid⟩
    rcases walAppend_marker hw s.wal .commit id with ⟨-, h1, h2⟩ | ⟨hstored, h1, h2⟩
    · -- nothing was written
      simp only [txnLogStep, txnCommit, hf, walLogCommit, h1, h2, txnCommitSection, if_true]
      exact ⟨ps, inv.same_log rfl inv.distinct (fun id h => Or.inl h) (fun c hc => hc)⟩
    · by_cases hlsn : s.wal.nextLsn = INVALID_LSN
      · -- the LSN counter has wrapped to 0: the record counts as failed, and recovery never sees it
        simp only [txnLogStep, txnCommit, hf, walLogCommit, h1, h2, hlsn, txnCommitSection, if_true]
        have hvis : visible (ps ++ [(INVALID_LSN, .marker .commit id)]) = visible ps := by
          rcases visible_append ps (INVALID_LSN, .marker .commit id) with h | ⟨h, -⟩
          · exact h
          · exact absurd rfl h
        refine ⟨ps ++ [(INVALID_LSN, .marker .commit id)], ?_, ?_, inv.distinct, ?_, ?_, ?_⟩
        · simp [encodeMarkers_append, encodeMarkers, inv.file]
        · intro p hp
          rcases List.mem_append.mp hp with hp | hp
          · exact inv.marker p hp
          · rw [List.mem_singleton] at hp
            subst hp
            exact ⟨.commit, id, rfl, Or.inl rfl⟩
        · rw [hvis]; exact inv.once
        · rw [hvis]; exact inv.undecided
        · rw [hvis]; exact inv.acknowledged
      · have hfs := hflush hstored
        subst hfs
        simp only [txnLogStep, txnCommit, hf, walLogCommit, h1, h2, hlsn, if_false, walFlush,
          txnCommitSection]
        exact ⟨_, inv.append hf (Or.inl rfl) s.wal.nextLsn rfl rfl (hmore _)
          (fun _ => by simp)⟩

/-- **One safe step** keeps the invariant. -/
theorem LogInv.step {s : TxnLog} {ps : List (UInt64 × WalRecord)} (inv : LogInv s ps)
    (a : TxnStep) (hsafe : OutcomeSafe s a) : ∃ ps', LogInv (txnLogStep s a) ps' := by
  cases a with
  | begin => exact ⟨ps, inv.begin hsafe⟩
  | commit id write fsync => exact inv.commit hsafe
  | fallback n write =>
    cases hn : s.pending[n]? with
    | none => simp only [txnLogStep, hn]; exact ⟨ps, inv⟩
    | some id =>
      simp only [txnLogStep, hn]
      exact inv.abort (fun _ => hsafe) rfl rfl (fun c hc => List.mem_append_left _ hc)
  | abort id write => exact inv.abort hsafe rfl rfl (fun c hc => hc)
  | lockCheck id key => exact ⟨ps, inv⟩
  | lockRegister id key =>
    cases hf : findTxnLocked s.tm id with
    | none => simp only [txnLogStep, txnLockRegister, hf]; exact ⟨ps, inv⟩
    | some i =>
      simp only [txnLogStep, txnLockRegister, hf]
      obtain ⟨t, ht, htid⟩ := findTxnLocked_some hf
      refine ⟨ps, inv.same_log rfl ?_ ?_ (fun c hc => hc)⟩
      · refine TxnManager.setSlot_some_distinct inv.distinct ?_
        intro j u hj hu hid
        exact hj (inv.distinct j i u t hu ht (by rw [hid, htid]))
      · intro id' h
        exact Or.inl ((TxnManager.setSlot_some_active ht htid.symm).mp h)
  | restart =>
    refine ⟨ps, inv.same_log rfl txnMgrCreate_distinct ?_ (fun c hc => hc)⟩
    intro id h
    exact absurd h (txnMgrCreate_not_active id)

theorem LogInv.run (steps : List TxnStep) : ∀ {s : TxnLog} {ps : List (UInt64 × WalRecord)},
    LogInv s ps → SafeRun s steps → ∃ ps', LogInv (txnLogRun s steps) ps' := by
  induction steps with
  | nil => intro s ps inv _; exact ⟨ps, inv⟩
  | cons a steps ih =>
    intro s ps inv hrun
    obtain ⟨ps', inv'⟩ := inv.step a hrun.1
    exact ih inv' hrun.2

/-- **One outcome per transaction.**  In every run of safe steps, restarts included, the log holds
at most one COMMIT or ABORT per transaction id, and a COMMIT only if its commit returned `0`. -/
theorem txnLog_singleOutcome (steps : List TxnStep) (h : SafeRun TxnLog.init steps) :
    SingleOutcome (txnLogRun TxnLog.init steps) := by
  obtain ⟨ps, inv⟩ := LogInv.init.run steps h
  exact inv.singleOutcome

/-- A committed transaction and a restart. -/
theorem txnLog_singleOutcome_restart :
    SafeRun TxnLog.init [.begin, .commit 1 .ok .ok, .restart] ∧
      SingleOutcome (txnLogRun TxnLog.init [.begin, .commit 1 .ok .ok, .restart]) := by
  have hsafe : SafeRun TxnLog.init [.begin, .commit 1 .ok .ok, .restart] := by
    refine ⟨fun _ => ⟨txnMgrCreate_not_active _, rfl⟩, fun _ => ⟨?_, fun _ => rfl⟩, trivial, trivial⟩
    intro n h
    cases h
  exact ⟨hsafe, txnLog_singleOutcome _ hsafe⟩

/-- The COMMIT of transaction 1 is appended, its `fsync` fails, and the fallback appends an ABORT:
two outcomes, and the commit has returned `-1`. -/
theorem txnLog_two_outcomes :
    ¬ SingleOutcome (txnLogRun TxnLog.init [.begin, .commit 1 .ok (.short 0), .fallback 0 .ok]) := by
  intro h
  exact absurd (h 1).1 (by decide)

end Ticketing
