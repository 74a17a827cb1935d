import Ticketing.Txn.TxnLog
import Ticketing.Storage.WalFailures
import Mathlib.Data.List.TakeWhile

/-!
# Commits after a loss of power

`txn_commit` returns `0` only after `wal_flush`.  The log file is the one that the tables log to as well;
a loss of power leaves what the last such flush has put on the medium, and anything behind it.

* `DurableLog`, `DurableLog.step` — the log with the part of it that is on the medium.
* `Survives`, `Survives.step` — bytes that no step and no loss of power takes away.
* `WholeRecords` — a log that recovery reads to its end.
* `acknowledged_commits_survive` — any commit that returned `0`, after any run.
-/

set_option autoImplicit false

namespace Ticketing

open Bytes

/-! ## The system -/

/-- The transactions and their log, and how many bytes of the log file are on the medium for sure. -/
structure DurableLog where
  log : TxnLog
  synced : Nat

/-- A critical section of the transaction manager or an orderly restart, an append by a table, or a loss of
power that leaves the bytes `tail` behind those that were flushed. -/
inductive DurableStep where
  | txn (a : TxnStep)
  | append (r : WalRecord) (io : IoScript)
  | powerLoss (tail : Bytes)

/-- The step is a commit that returns `0`. -/
def TxnLog.acknowledges (s : TxnLog) : TxnStep → Bool
  | .commit id write fsync =>
    match (txnCommit s.tm s.wal id write fsync).1 with
    | .committed _ => true
    | _ => false
  | _ => false

namespace DurableLog

/-- A fresh log. -/
def init : DurableLog := ⟨TxnLog.init, 0⟩

/-- The log file, on the medium or not. -/
def file (s : DurableLog) : Bytes := s.log.wal.file

/-- One step.  Tables append under the mutex of the log, so also between the write and the flush of a
commit; that the flush takes their records along is not counted on here. -/
def step (s : DurableLog) : DurableStep → Option DurableLog
  | .txn a =>
    let log := txnLogStep s.log a
    some ⟨log, if s.log.acknowledges a then log.wal.file.length else s.synced⟩
  | .append r io => some ⟨{ s.log with wal := (walAppend s.log.wal r io).2.1 }, s.synced⟩
  -- `wal_open` and `txn_mgr_create` in the next process
  | .powerLoss tail =>
    let file := s.file.take s.synced ++ tail
    some ⟨{ s.log with tm := txnMgrCreate, wal := walOpen file, pending := [] }, file.length⟩

end DurableLog

/-! ## What recovery reads -/

/-- What `wal_recover` hands to the callback when it finds memory for its buffers. -/
def recoveredRecords (file : Bytes) : List Replay := (walRecover memOk file).1

/-- Records with valid LSNs, one after the other to the end of the file. -/
def WholeRecords (file : Bytes) : Prop := ∃ ps, file = encodeMarkers ps ∧ ∀ p ∈ ps, p.1 ≠ INVALID_LSN

section Recovery

variable {file : Bytes} {r : WalRecord} {lsn : UInt64}

/-- Bytes behind a log take nothing away. -/
theorem recoveredRecords_prefix {file' : Bytes} (h : file <+: file') :
    recoveredRecords file <+: recoveredRecords file' := by
  obtain ⟨tail, rfl⟩ := h
  obtain ⟨fuel, i, hmore⟩ := (walRecoverLoop_extend tail file.length file 0 (Nat.le_refl _)).2
    (file ++ tail).length 0 (Nat.le_refl _)
  exact ⟨_, hmore.symm⟩

theorem visible_eq {ps : List (UInt64 × WalRecord)} (h : ∀ p ∈ ps, p.1 ≠ INVALID_LSN) : visible ps = ps := by
  refine List.takeWhile_eq_self_iff.mpr fun p hp => ?_
  simpa using h p hp

theorem recoveredRecords_encodeMarkers {ps : List (UInt64 × WalRecord)} (h : ∀ p ∈ ps, p.1 ≠ INVALID_LSN) :
    recoveredRecords (encodeMarkers ps) = ps.map fun p => p.2.replay p.1 := by
  have hloop := walRecoverLoop_markers ps (encodeMarkers ps).length 0 (Nat.le_refl _)
  rw [visible_eq h] at hloop
  exact hloop

/-- One more record behind whole records is recovered, and they are whole again. -/
theorem WholeRecords.append (h : WholeRecords file) (hlsn : lsn ≠ INVALID_LSN) :
    WholeRecords (file ++ r.encode lsn) ∧
      recoveredRecords (file ++ r.encode lsn) = recoveredRecords file ++ [r.replay lsn] := by
  obtain ⟨ps, rfl, hps⟩ := h
  have hmore : ∀ p ∈ ps ++ [(lsn, r)], p.1 ≠ INVALID_LSN := fun p hp => by
    rcases List.mem_append.mp hp with hp | hp
    · exact hps p hp
    · rw [List.mem_singleton] at hp
      rw [hp]
      exact hlsn
  have hfile : encodeMarkers ps ++ r.encode lsn = encodeMarkers (ps ++ [(lsn, r)]) := by
    rw [encodeMarkers_append, encodeMarkers, encodeMarkers, List.append_nil]
  refine ⟨⟨_, hfile, hmore⟩, ?_⟩
  rw [hfile, recoveredRecords_encodeMarkers hmore, recoveredRecords_encodeMarkers hps, List.map_append,
    List.map_singleton]

end Recovery

/-! ## One section -/

section Sections

variable {s : TxnLog} {wal : Wal} {tm : TxnManager} {id : UInt32} {write fsync : IoResult}

/-- An append leaves the bytes that are there. -/
theorem walAppend_extends (wal : Wal) (r : WalRecord) (io : IoScript) :
    ∃ tail, (walAppend wal r io).2.1.file = wal.file ++ tail := by
  rcases walAppend_spec wal (r, io) with ⟨-, -, hwal⟩ | ⟨-, -, -, hwal⟩
  · exact ⟨_, by rw [hwal]⟩
  · exact ⟨_, by rw [hwal]⟩

theorem walFlush_file (wal : Wal) (fsync : IoResult) : (walFlush wal fsync).2.file = wal.file := by
  cases fsync <;> rfl

/-- What an append that is not torn does: the whole record, or nothing. -/
theorem WholeRecords.walAppend {r : WalRecord} {io : IoScript} (h : WholeRecords wal.file)
    (hlsn : wal.nextLsn ≠ INVALID_LSN) (hwhole : ¬ AppendCall.Torn (r, io)) :
    WholeRecords (walAppend wal r io).2.1.file := by
  rcases walAppend_spec wal (r, io) with ⟨-, -, hwal⟩ | ⟨hfails, -, -, hwal⟩
  · rw [hwal]
    exact (h.append hlsn).1
  · have hnone : AppendCall.left (r, io) = 0 := by
      by_contra hleft
      exact hwhole ⟨hfails, Nat.pos_of_ne_zero hleft⟩
    rw [hwal, hnone, List.take_zero, List.append_nil]
    exact h

/-- A marker that is written whole or not at all. -/
theorem not_torn_marker (hw : WholeWrite write) (op : WalOp) :
    ¬ AppendCall.Torn (.marker op id, fun _ => write) := by
  rintro ⟨hfails, hleft⟩
  have hsizes : (WalRecord.marker op id).writeSizes = [WAL_HEADER_SIZE] := rfl
  rw [AppendCall.Fails, hsizes] at hfails
  rw [AppendCall.left, hsizes] at hleft
  cases write with
  | ok => cases hfails
  | short n =>
    rcases hw n rfl with rfl | hn
    · exact absurd hleft (Nat.lt_irrefl 0)
    · rw [writesFail, writesFail, Bool.or_false, IoResult.fallsShort, decide_eq_true_eq] at hfails
      omega

/-- **A commit that returns `0`** has appended its record whole. -/
theorem txnCommit_committed {locks : List LockKey}
    (h : (txnCommit tm wal id write fsync).1 = .committed locks) : wal.nextLsn ≠ INVALID_LSN ∧
      (txnCommit tm wal id write fsync).2.2.file = wal.file ++ (WalRecord.marker .commit id).encode wal.nextLsn := by
  unfold txnCommit at h ⊢
  cases hfind : findTxnLocked tm id with
  | none =>
    rw [hfind] at h
    cases h
  | some i =>
    rw [hfind] at h
    simp only at h ⊢
    unfold walLogCommit at h ⊢
    rcases walAppend_spec wal (.marker .commit id, fun _ => write) with ⟨-, hret, hwal⟩ | ⟨-, hret, -, -⟩
    · rw [hret, hwal] at h ⊢
      by_cases hlsn : wal.nextLsn = INVALID_LSN
      · rw [if_pos hlsn] at h
        simp only [txnCommitSection, hfind] at h
        cases h
      · rw [if_neg hlsn]
        exact ⟨hlsn, walFlush_file _ _⟩
    · rw [hret, if_pos rfl] at h
      simp only [txnCommitSection, hfind] at h
      cases h

/-- Any commit leaves the bytes that are there. -/
theorem txnCommit_extends (tm : TxnManager) (wal : Wal) (id : UInt32) (write fsync : IoResult) :
    ∃ tail, (txnCommit tm wal id write fsync).2.2.file = wal.file ++ tail := by
  unfold txnCommit
  cases hfind : findTxnLocked tm id with
  | none => exact ⟨[], (List.append_nil _).symm⟩
  | some i =>
    simp only
    obtain ⟨tail, htail⟩ := walAppend_extends wal (.marker .commit id) fun _ => write
    refine ⟨tail, ?_⟩
    split
    · exact htail
    · exact (walFlush_file _ _).trans htail

theorem txnAbort_extends (tm : TxnManager) (wal : Wal) (id : UInt32) (write : IoResult) :
    ∃ tail, (txnAbort tm wal id write).2.file = wal.file ++ tail := by
  unfold txnAbort
  cases hfind : findTxnLocked tm id with
  | none => exact ⟨[], (List.append_nil _).symm⟩
  | some i => exact walAppend_extends wal (.marker .abort id) fun _ => write

end Sections

/-! ## One step -/

section Steps

variable {s s' : DurableLog}

/-- What a commit section does to the log and to the calls that have returned. -/
theorem txnLogStep_commit (s : TxnLog) (id : UInt32) (write fsync : IoResult) :
    (s.acknowledges (.commit id write fsync) = true ∧
      (txnLogStep s (.commit id write fsync)).wal = (txnCommit s.tm s.wal id write fsync).2.2 ∧
      (txnLogStep s (.commit id write fsync)).commitCalls = s.commitCalls ++ [(id, 0)]) ∨
    (s.acknowledges (.commit id write fsync) = false ∧
      ((txnLogStep s (.commit id write fsync)).wal = (txnCommit s.tm s.wal id write fsync).2.2 ∨
        (txnLogStep s (.commit id write fsync)).wal = s.wal) ∧
      ∀ id', (id', (0 : Int)) ∈ (txnLogStep s (.commit id write fsync)).commitCalls →
        (id', (0 : Int)) ∈ s.commitCalls) := by
  simp only [txnLogStep, TxnLog.acknowledges]
  cases hout : (txnCommit s.tm s.wal id write fsync).1 with
  | refused =>
    refine Or.inr ⟨rfl, Or.inr rfl, fun id' hmem => ?_⟩
    rcases List.mem_append.mp hmem with hmem | hmem
    · exact hmem
    · rw [List.mem_singleton, Prod.mk.injEq] at hmem
      exact absurd hmem.2 (by decide)
  | failed => exact Or.inr ⟨rfl, Or.inl rfl, fun id' hmem => hmem⟩
  | committed locks => exact Or.inl ⟨rfl, rfl, rfl⟩

/-- A section or restart leaves the bytes that are there. -/
theorem txnLogStep_extends (s : TxnLog) (a : TxnStep) : ∃ tail, (txnLogStep s a).wal.file = s.wal.file ++ tail := by
  have hsame : ∃ tail, s.wal.file = s.wal.file ++ tail := ⟨[], (List.append_nil _).symm⟩
  cases a with
  | begin => exact hsame
  | commit id write fsync =>
    rcases txnLogStep_commit s id write fsync with ⟨-, hwal, -⟩ | ⟨-, hwal | hwal, -⟩
    · rw [hwal]
      exact txnCommit_extends _ _ _ _ _
    · rw [hwal]
      exact txnCommit_extends _ _ _ _ _
    · rw [hwal]
      exact hsame
  | fallback n write =>
    simp only [txnLogStep]
    cases s.pending[n]? with
    | none => exact hsame
    | some id => exact txnAbort_extends _ _ _ _
  | abort id write => exact txnAbort_extends _ _ _ _
  | lockCheck id key => exact hsame
  | lockRegister id key =>
    simp only [txnLogStep]
    cases txnLockRegister s.tm id key with
    | none => exact hsame
    | some tm => exact hsame
  | restart => exact hsame

/-- Commits that return `0` are commits. -/
theorem txnLogStep_commitCalls {s : TxnLog} {a : TxnStep} {id : UInt32}
    (h : (id, (0 : Int)) ∈ (txnLogStep s a).commitCalls) : (id, (0 : Int)) ∈ s.commitCalls ∨
      ∃ write fsync, a = .commit id write fsync ∧ s.acknowledges a = true := by
  have hfallback : ∀ {id' : UInt32}, (id, (0 : Int)) ∈ s.commitCalls ++ [(id', -1)] →
      (id, (0 : Int)) ∈ s.commitCalls := fun hmem => by
    rcases List.mem_append.mp hmem with hmem | hmem
    · exact hmem
    · rw [List.mem_singleton, Prod.mk.injEq] at hmem
      exact absurd hmem.2 (by decide)
  cases a with
  | begin => exact Or.inl h
  | commit id' write fsync =>
    rcases txnLogStep_commit s id' write fsync with ⟨hack, -, hcalls⟩ | ⟨-, -, hcalls⟩
    · rw [hcalls] at h
      rcases List.mem_append.mp h with h | h
      · exact Or.inl h
      · rw [List.mem_singleton, Prod.mk.injEq] at h
        obtain ⟨rfl, -⟩ := h
        exact Or.inr ⟨write, fsync, rfl, hack⟩
    · exact Or.inl (hcalls id h)
  | fallback n write =>
    simp only [txnLogStep] at h
    cases hn : s.pending[n]? with
    | none =>
      rw [hn] at h
      exact Or.inl h
    | some id' =>
      rw [hn] at h
      exact Or.inl (hfallback h)
  | abort id' write => exact Or.inl h
  | lockCheck id' key => exact Or.inl h
  | lockRegister id' key =>
    simp only [txnLogStep] at h
    cases hreg : txnLockRegister s.tm id' key with
    | none =>
      rw [hreg] at h
      exact Or.inl h
    | some tm =>
      rw [hreg] at h
      exact Or.inl h
  | restart => exact Or.inl h

/-- The bytes `front` are at the front of the file, and on the medium. -/
structure Survives (front : Bytes) (s : DurableLog) : Prop where
  isPrefix : front <+: s.file
  synced : front.length ≤ s.synced

/-- **No step and no loss of power** takes them away. -/
theorem Survives.step {front : Bytes} (h : Survives front s) {a : DurableStep} (hs : s.step a = some s') :
    Survives front s' := by
  cases a with
  | txn a =>
    cases hs
    obtain ⟨tail, htail⟩ := txnLogStep_extends s.log a
    have hfront : front <+: (txnLogStep s.log a).wal.file := by
      rw [htail]
      exact h.isPrefix.trans (List.prefix_append _ _)
    refine ⟨hfront, ?_⟩
    dsimp only
    split
    · exact hfront.length_le
    · exact h.synced
  | append r io =>
    cases hs
    obtain ⟨tail, htail⟩ := walAppend_extends s.log.wal r io
    refine ⟨?_, h.synced⟩
    show front <+: (walAppend s.log.wal r io).2.1.file
    rw [htail]
    exact h.isPrefix.trans (List.prefix_append _ _)
  | powerLoss tail =>
    cases hs
    have hfront : front <+: s.file.take s.synced ++ tail := by
      refine List.IsPrefix.trans ?_ (List.prefix_append _ _)
      rw [List.prefix_take_iff]
      exact ⟨h.isPrefix, h.synced⟩
    exact ⟨hfront, hfront.length_le⟩

/-- After a commit that returns `0` the whole file survives, and its record is the last. -/
theorem survives_commit {id : UInt32} {write fsync : IoResult}
    (hack : s.log.acknowledges (.commit id write fsync) = true)
    (hs : s.step (.txn (.commit id write fsync)) = some s') : Survives s'.file s' ∧
      (WholeRecords s.file → recoveredRecords s'.file =
        recoveredRecords s.file ++ [(WalRecord.marker .commit id).replay s.log.wal.nextLsn]) := by
  simp only [DurableLog.step, if_pos hack, Option.some.injEq] at hs
  subst hs
  refine ⟨⟨List.prefix_refl _, Nat.le_refl _⟩, fun hwhole => ?_⟩
  obtain ⟨locks, hout⟩ : ∃ locks, (txnCommit s.log.tm s.log.wal id write fsync).1 = .committed locks := by
    simp only [TxnLog.acknowledges] at hack
    cases hout : (txnCommit s.log.tm s.log.wal id write fsync).1 with
    | refused =>
      rw [hout] at hack
      cases hack
    | failed =>
      rw [hout] at hack
      cases hack
    | committed locks => exact ⟨locks, rfl⟩
  obtain ⟨hlsn, hfile⟩ := txnCommit_committed hout
  rcases txnLogStep_commit s.log id write fsync with ⟨-, hwal, -⟩ | ⟨hno, -, -⟩
  · show recoveredRecords (txnLogStep s.log (.commit id write fsync)).wal.file = _
    rw [hwal, hfile]
    exact (hwhole.append hlsn).2
  · rw [hack] at hno
    cases hno

/-- The step writes its record whole or not at all, and a loss of power leaves whole records. -/
def DurableLog.WholeStep (s : DurableLog) : DurableStep → Prop
  | .txn (.commit _ write _) => s.log.wal.nextLsn ≠ INVALID_LSN ∧ WholeWrite write
  | .txn (.fallback _ write) => s.log.wal.nextLsn ≠ INVALID_LSN ∧ WholeWrite write
  | .txn (.abort _ write) => s.log.wal.nextLsn ≠ INVALID_LSN ∧ WholeWrite write
  | .txn _ => True
  | .append r io => s.log.wal.nextLsn ≠ INVALID_LSN ∧ ¬ AppendCall.Torn (r, io)
  | .powerLoss tail => WholeRecords (s.file.take s.synced ++ tail)

theorem WholeRecords.abort {tm : TxnManager} {wal : Wal} {id : UInt32} {write : IoResult}
    (h : WholeRecords wal.file) (hlsn : wal.nextLsn ≠ INVALID_LSN) (hw : WholeWrite write) :
    WholeRecords (txnAbort tm wal id write).2.file := by
  unfold txnAbort
  cases findTxnLocked tm id with
  | none => exact h
  | some i => exact h.walAppend hlsn (not_torn_marker hw .abort)

/-- Such steps keep the records whole. -/
theorem WholeRecords.step (h : WholeRecords s.file) {a : DurableStep} (hwhole : s.WholeStep a)
    (hs : s.step a = some s') : WholeRecords s'.file := by
  cases a with
  | append r io =>
    cases hs
    exact h.walAppend hwhole.1 hwhole.2
  | powerLoss tail =>
    cases hs
    exact hwhole
  | txn a =>
    cases hs
    show WholeRecords (txnLogStep s.log a).wal.file
    cases a with
    | begin => exact h
    | commit id write fsync =>
      obtain ⟨hlsn, hw⟩ := hwhole
      have hcommit : WholeRecords (txnCommit s.log.tm s.log.wal id write fsync).2.2.file := by
        unfold txnCommit
        cases findTxnLocked s.log.tm id with
        | none => exact h
        | some i =>
          have happend := h.walAppend hlsn (@not_torn_marker id _ hw .commit)
          simp only
          split
          · exact happend
          · exact (walFlush_file _ _).symm ▸ happend
      rcases txnLogStep_commit s.log id write fsync with ⟨-, hwal, -⟩ | ⟨-, hwal | hwal, -⟩
      · rw [hwal]
        exact hcommit
      · rw [hwal]
        exact hcommit
      · rw [hwal]
        exact h
    | fallback n write =>
      simp only [txnLogStep]
      cases s.log.pending[n]? with
      | none => exact h
      | some id => exact h.abort hwhole.1 hwhole.2
    | abort id write => exact h.abort hwhole.1 hwhole.2
    | lockCheck id key => exact h
    | lockRegister id key =>
      simp only [txnLogStep]
      cases txnLockRegister s.log.tm id key with
      | none => exact h
      | some tm => exact h
    | restart => exact h

end Steps

/-! ## Runs -/

section Runs

variable {tr : List (Transition DurableLog DurableStep)} {s : DurableLog}

/-- Every commit that has returned `0` is in the history, and what the log was then survives. -/
structure Durable (tr : List (Transition DurableLog DurableStep)) (s : DurableLog) : Prop where
  made : ∀ id, (id, (0 : Int)) ∈ s.log.commitCalls → ∃ t ∈ tr, ∃ write fsync,
    t.act = .txn (.commit id write fsync) ∧ t.before.log.acknowledges (.commit id write fsync) = true
  survives : ∀ t ∈ tr, ∀ id write fsync, t.act = .txn (.commit id write fsync) →
    t.before.log.acknowledges (.commit id write fsync) = true → Survives t.after.file s
  whole : (∀ t ∈ tr, t.before.WholeStep t.act) → WholeRecords s.file ∧ ∀ t ∈ tr, WholeRecords t.before.file

theorem durable (hist : History DurableLog.step DurableLog.init tr s) : Durable tr s := by
  refine History.invariant (I := Durable) ⟨fun id h => absurd h List.not_mem_nil,
    fun t ht => absurd ht List.not_mem_nil, fun _ => ⟨⟨[], rfl, fun p hp => absurd hp List.not_mem_nil⟩,
      fun t ht => absurd ht List.not_mem_nil⟩⟩ ?_ hist
  intro tr s a s' ih hs
  refine ⟨fun id hmem => ?_, fun t ht id write fsync hact hack => ?_, fun hall => ?_⟩
  · have hold : (id, (0 : Int)) ∈ s.log.commitCalls → _ := ih.made id
    cases a with
    | txn a =>
      have hcalls : (id, (0 : Int)) ∈ (txnLogStep s.log a).commitCalls := by
        cases hs
        exact hmem
      rcases txnLogStep_commitCalls hcalls with hbefore | ⟨write, fsync, rfl, hack⟩
      · obtain ⟨t, ht, hmade⟩ := hold hbefore
        exact ⟨t, List.mem_cons_of_mem _ ht, hmade⟩
      · exact ⟨_, List.mem_cons_self, write, fsync, rfl, hack⟩
    | append r io =>
      cases hs
      obtain ⟨t, ht, hmade⟩ := hold hmem
      exact ⟨t, List.mem_cons_of_mem _ ht, hmade⟩
    | powerLoss tail =>
      cases hs
      obtain ⟨t, ht, hmade⟩ := hold hmem
      exact ⟨t, List.mem_cons_of_mem _ ht, hmade⟩
  · rcases List.mem_cons.mp ht with rfl | ht
    · dsimp only at hact hack
      rw [hact] at hs
      exact (survives_commit hack hs).1
    · exact (ih.survives t ht id write fsync hact hack).step hs
  · obtain ⟨hlast, hbefore⟩ := List.forall_mem_cons.mp hall
    obtain ⟨hwhole, hearlier⟩ := ih.whole hbefore
    exact ⟨hwhole.step hlast hs, List.forall_mem_cons.mpr ⟨hwhole, hearlier⟩⟩

/-- **Commits that returned `0` survive.**  Take any run: transactions, appends of the tables that fail
anywhere, failed flushes, orderly restarts and losses of power that leave anything behind the bytes that
were flushed.  For every commit that has returned `0` there is the step in which it did; all that recovery
would have replayed then is still replayed, first and in the same order; and if the log was made of whole
records before that step, then the COMMIT record is the last of it.  So every such commit is found in the
log after a run in which records were written whole or not at all and losses of power left whole records. -/
theorem acknowledged_commits_survive (hist : History DurableLog.step DurableLog.init tr s) {id : UInt32}
    (hack : (id, (0 : Int)) ∈ s.log.commitCalls) :
    (∃ t ∈ tr, (∃ write fsync, t.act = .txn (.commit id write fsync)) ∧
      recoveredRecords t.after.file <+: recoveredRecords s.file ∧
      (WholeRecords t.before.file → recoveredRecords t.after.file =
        recoveredRecords t.before.file ++ [(WalRecord.marker .commit id).replay t.before.log.wal.nextLsn])) ∧
      ((∀ t ∈ tr, t.before.WholeStep t.act) → ∃ r ∈ recoveredRecords s.file, r.header.txnId = id ∧
        r.header.opType = WalOp.commit.code) := by
  have hdurable := durable hist
  obtain ⟨t, ht, write, fsync, hact, hzero⟩ := hdurable.made id hack
  have hstep := hist.step_of_mem ht
  rw [hact] at hstep
  obtain ⟨-, hrecord⟩ := survives_commit hzero hstep
  have hstays := recoveredRecords_prefix (hdurable.survives t ht id write fsync hact hzero).isPrefix
  refine ⟨⟨t, ht, ⟨write, fsync, hact⟩, hstays, hrecord⟩, fun hall => ?_⟩
  refine ⟨(WalRecord.marker .commit id).replay t.before.log.wal.nextLsn, hstays.subset ?_, rfl, rfl⟩
  rw [hrecord ((hdurable.whole hall).2 t ht)]
  exact List.mem_append_right _ (List.mem_singleton_self _)

end Runs

/-- A transaction commits; a table starts a record that is torn; then the power fails, and three bytes are
left behind what was flushed. -/
theorem acknowledged_commits_survive_torn : ∃ tr s,
    History DurableLog.step DurableLog.init tr s ∧ (1, (0 : Int)) ∈ s.log.commitCalls ∧
      tr.map Transition.act = [.powerLoss [7, 7, 7],
        .append (.marker .checkpoint 0) (fun _ => .short 5), .txn (.commit 1 .ok .ok), .txn .begin] ∧
      ∃ t ∈ tr, (∃ write fsync, t.act = .txn (.commit 1 write fsync)) ∧
        recoveredRecords t.after.file <+: recoveredRecords s.file := by
  have hrun : ∃ tr s, runHistory DurableLog.step [] DurableLog.init [.txn .begin, .txn (.commit 1 .ok .ok),
      .append (.marker .checkpoint 0) (fun _ => .short 5), .powerLoss [7, 7, 7]] = some (tr, s) ∧
      (1, (0 : Int)) ∈ s.log.commitCalls := ⟨_, _, rfl, by decide⟩
  obtain ⟨tr, s, hrun, hmem⟩ := hrun
  have hist := History.of_runHistory .nil hrun
  obtain ⟨⟨t, ht, hcommit, hstays, -⟩, -⟩ := acknowledged_commits_survive hist hmem
  exact ⟨tr, s, hist, hmem, runHistory_acts hrun, t, ht, hcommit, hstays⟩

end Ticketing
