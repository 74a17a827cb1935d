import Ticketing.Storage.WalRecovery

/-!
# Reopening a log (`wal_open` after an orderly close or a crash)

`wal_open` finds the next LSN by hopping from header to header and then appends at the physical end
of the file.

* `walOpenScan_append` — the LSN scan over complete records.
* `tornTail_iff` — a log cut at byte `k` stays usable for *every* later append exactly when the cut
  falls on a record boundary; `tornTail_swallows` is a concrete log on which it does not.
-/

set_option autoImplicit false

namespace Ticketing

open Bytes

theorem uint64_lt_succ {m l : UInt64} (h : l.toNat = m.toNat + 1) : m < l := by
  rw [UInt64.lt_iff_toNat_lt]; omega

/-- The scan of `wal_open` over complete records: the last LSN wins. -/
theorem walOpenScan_append (rs : List WalRecord) :
    ∀ (lsn m : UInt64) (tail : Bytes) (fuel : Nat),
    LsnRoom lsn rs → lsn.toNat = m.toNat + 1 → (encodeAll lsn rs ++ tail).length ≤ fuel →
    ∃ (fuel' : Nat) (m' : UInt64), tail.length ≤ fuel' ∧ m'.toNat = m.toNat + rs.length ∧
      walOpenScan fuel (encodeAll lsn rs ++ tail) m = walOpenScan fuel' tail m' := by
  induction rs with
  | nil =>
    intro lsn m tail fuel _ _ hf
    exact ⟨fuel, m, by simpa [encodeAll] using hf, by simp, by simp [encodeAll]⟩
  | cons r rs ih =>
    intro lsn m tail fuel hl hm hf
    have hge := r.size_ge
    simp only [encodeAll, List.append_assoc, List.length_append, WalRecord.length_encode] at hf
    obtain ⟨f, rfl⟩ : ∃ f, fuel = f + 1 := ⟨fuel - 1, by unfold WAL_HEADER_SIZE at hge; omega⟩
    obtain ⟨fuel', m', hf', hm', heq⟩ := ih (lsn + 1) lsn tail f hl.tail.1 hl.tail.2
      (by simp only [List.length_append]; unfold WAL_HEADER_SIZE at hge; omega)
    refine ⟨fuel', m', hf', by rw [hm', hm, List.length_cons]; omega, ?_⟩
    have hlen : ¬ (r.encode lsn ++ (encodeAll (lsn + 1) rs ++ tail)).length < WAL_HEADER_SIZE := by
      simp only [List.length_append, WalRecord.length_encode]; omega
    rw [encodeAll, List.append_assoc, walOpenScan, if_neg hlen]
    simp only [decode_record]
    have hd : (r.header lsn).dataSize = r.dataSize := rfl
    have hmax : m < (r.header lsn).lsn := uint64_lt_succ hm
    rw [if_pos hmax, hd, ← WalRecord.size, drop_record]
    exact heq

/-- `wal_open` on a log of complete records continues with the next LSN. -/
theorem walOpen_encodeAll (rs : List WalRecord) (hl : LsnRoom 1 rs) :
    (walOpen (encodeAll 1 rs)).nextLsn = 1 + UInt64.ofNat rs.length := by
  obtain ⟨fuel', m', _, hm', heq⟩ := walOpenScan_append rs 1 0 [] _ hl rfl (Nat.le_refl _)
  have hnil : ∀ (f : Nat) (m : UInt64), walOpenScan f [] m = m := by
    intro f m
    cases f <;> simp [walOpenScan, WAL_HEADER_SIZE]
  have h2 := hl.2
  have h1 : (1 : UInt64).toNat = 1 := rfl
  have hmv : m' = UInt64.ofNat rs.length := by
    apply UInt64.toNat_inj.mp
    rw [hm', UInt64.toNat_ofNat']
    have : (0 : UInt64).toNat = 0 := rfl
    omega
  simp only [List.append_nil] at heq
  show walOpenScan (encodeAll 1 rs).length (encodeAll 1 rs) 0 + 1 = _
  rw [heq, hnil, hmv, UInt64.add_comm]

theorem lsn_mem_replays {rs : List WalRecord} : ∀ {lsn : UInt64}, LsnRoom lsn rs →
    ∀ p ∈ replays lsn rs, lsn.toNat ≤ p.header.lsn.toNat := by
  induction rs with
  | nil => intro lsn _ p hp; cases hp
  | cons r rs ih =>
    intro lsn hl p hp
    rcases List.mem_cons.mp hp with rfl | hp
    · unfold WalRecord.replay
      split <;> exact Nat.le_refl _
    · have := ih hl.tail.1 p hp
      have := hl.tail.2
      omega

theorem replays_lsn_increasing (rs : List WalRecord) : ∀ (lsn : UInt64), LsnRoom lsn rs →
    ((replays lsn rs).map (·.header.lsn)).Pairwise (· < ·) := by
  induction rs with
  | nil => intro lsn _; exact List.Pairwise.nil
  | cons r rs ih =>
    intro lsn hl
    rw [replays, List.map_cons, List.pairwise_cons]
    refine ⟨?_, ih _ hl.tail.1⟩
    intro l hmem
    obtain ⟨p, hp, rfl⟩ := List.mem_map.mp hmem
    have h1 := lsn_mem_replays hl.tail.1 p hp
    have h2 := hl.tail.2
    have h3 : (r.replay lsn).header.lsn = lsn := by
      unfold WalRecord.replay
      split <;> rfl
    rw [h3, UInt64.lt_iff_toNat_lt]
    omega

/-- The log file cut at byte `k`. -/
def cutLog (rs : List WalRecord) (k : Nat) : Bytes := (appendAll walCreate rs).file.take k

/-- The callbacks of `wal_recover` after the cut log has been reopened and `new` appended. -/
def recoverAfterCut (rs : List WalRecord) (k : Nat) (new : List WalRecord) : List Replay :=
  (walRecover memOk (appendAll (walOpen (cutLog rs k)) new).file).1

/-- The log stays usable: recovery, which finds memory for its buffers, replays the records before the cut and
the new ones, each with its own header and data, with strictly increasing LSNs. -/
def TornTailOk (rs : List WalRecord) (k : Nat) (new : List WalRecord) : Prop :=
  recoverAfterCut rs k new =
      replays 1 (rs.take (endedBy rs k)) ++ replays (walOpen (cutLog rs k)).nextLsn new ∧
    ((recoverAfterCut rs k new).map (·.header.lsn)).Pairwise (· < ·)

/-- The cut leaves a log of complete records. -/
def CutOnBoundary (rs : List WalRecord) (k : Nat) : Prop :=
  ∃ n, cutLog rs k = (appendAll walCreate (rs.take n)).file

theorem cutLog_eq (rs : List WalRecord) (k : Nat) :
    cutLog rs k = encodeAll 1 (rs.take (endedBy rs k)) ++ tornTail 1 k rs := by
  rw [cutLog, appendAll_file, ← wholeRecords_eq_take]
  exact take_encodeAll rs 1 k

/-- A log of complete records has no torn tail: the parser would meet the same bytes twice. -/
theorem tornTail_eq_nil_of_boundary {rs : List WalRecord} {k : Nat} (hl : LsnRoom 1 rs)
    (h : CutOnBoundary rs k) : tornTail 1 k rs = [] := by
  obtain ⟨n, hn⟩ := h
  have htake : LsnRoom 1 (rs.take n) :=
    ⟨hl.1, by have := hl.2; rw [List.length_take]; omega⟩
  -- both descriptions of the cut file are parsed to the end
  have h1 : (walRecover memOk (cutLog rs k)).1 = replays 1 (rs.take (endedBy rs k)) := by
    have := walRecoverLoop_take rs 1 k _ hl (Nat.le_refl _)
    rw [← wholeRecords_eq_take]
    unfold walRecover cutLog
    rw [appendAll_file]
    exact congrArg Prod.fst this
  have h2 : (walRecover memOk (cutLog rs k)).1 = replays 1 (rs.take n) := by
    obtain ⟨f', _, heq⟩ := walRecoverLoop_append (rs.take n) 1 [] _ 0 htake (Nat.le_refl _)
    rw [hn, appendAll_file]
    unfold walRecover
    simp only [List.append_nil, walCreate, List.nil_append] at heq ⊢
    rw [heq]
    cases f' <;> simp [walRecoverLoop, WAL_HEADER_SIZE]
  have hlen := congrArg List.length (h1.symm.trans h2)
  simp only [length_replays, List.length_take] at hlen
  have hsame : rs.take (endedBy rs k) = rs.take n := by
    rw [List.take_eq_take_iff]
    exact hlen
  rw [cutLog_eq, appendAll_file, hsame] at hn
  have : encodeAll 1 (rs.take n) ++ tornTail 1 k rs = encodeAll 1 (rs.take n) ++ [] := by
    simpa [walCreate] using hn
  exact List.append_cancel_left this

/-- The file after reopening the cut log and appending. -/
theorem file_after_cut (rs : List WalRecord) (k : Nat) (new : List WalRecord) :
    (appendAll (walOpen (cutLog rs k)) new).file =
      encodeAll 1 (rs.take (endedBy rs k)) ++
        (tornTail 1 k rs ++ encodeAll (walOpen (cutLog rs k)).nextLsn new) := by
  rw [appendAll_file, ← List.append_assoc, ← cutLog_eq]
  rfl

/-- What recovery makes of the bytes from the torn record on decides the claim. -/
theorem recoverAfterCut_eq {rs : List WalRecord} {k : Nat} (hl : LsnRoom 1 rs)
    (new : List WalRecord) :
    ∃ fuel i, (tornTail 1 k rs ++ encodeAll (walOpen (cutLog rs k)).nextLsn new).length ≤ fuel ∧
      recoverAfterCut rs k new = replays 1 (rs.take (endedBy rs k)) ++
        (walRecoverLoop memOk fuel
          (tornTail 1 k rs ++ encodeAll (walOpen (cutLog rs k)).nextLsn new) i).1 := by
  have hw : LsnRoom 1 (rs.take (endedBy rs k)) :=
    ⟨hl.1, by have := hl.2; rw [List.length_take]; omega⟩
  obtain ⟨f', hf', heq⟩ := walRecoverLoop_append _ 1
    (tornTail 1 k rs ++ encodeAll (walOpen (cutLog rs k)).nextLsn new) _ 0 hw (Nat.le_refl _)
  refine ⟨f', 0 + (rs.take (endedBy rs k)).length, hf', ?_⟩
  unfold recoverAfterCut walRecover
  rw [file_after_cut]
  exact congrArg Prod.fst heq

/-- Nothing appended: only the complete records come back. -/
theorem tornTailOk_nil {rs : List WalRecord} (k : Nat) (hl : LsnRoom 1 rs) :
    TornTailOk rs k [] := by
  obtain ⟨fuel, i, _, heq⟩ := recoverAfterCut_eq (k := k) hl []
  have hloop := walRecoverLoop_tornTail rs 1 k fuel i
  simp only [encodeAll, List.append_nil] at heq
  rw [hloop, List.append_nil] at heq
  have hw : LsnRoom 1 (rs.take (endedBy rs k)) :=
    ⟨hl.1, by have := hl.2; rw [List.length_take]; omega⟩
  exact ⟨by rw [heq]; simp [replays], by rw [heq]; exact replays_lsn_increasing _ _ hw⟩

/-- A cut on a record boundary is harmless. -/
theorem tornTailOk_of_boundary {rs : List WalRecord} {k : Nat} {new : List WalRecord}
    (hl : LsnRoom 1 (rs ++ new)) (h : CutOnBoundary rs k) : TornTailOk rs k new := by
  have hlrs : LsnRoom 1 rs := ⟨hl.1, by have := hl.2; rw [List.length_append] at this; omega⟩
  have hnil := tornTail_eq_nil_of_boundary hlrs h
  have hw : LsnRoom 1 (rs.take (endedBy rs k)) :=
    ⟨hl.1, by have := hlrs.2; rw [List.length_take]; omega⟩
  have hall : LsnRoom 1 (rs.take (endedBy rs k) ++ new) := by
    refine ⟨hl.1, ?_⟩
    have := hl.2
    rw [List.length_append] at this ⊢
    rw [List.length_take]; omega
  have hcut : cutLog rs k = encodeAll 1 (rs.take (endedBy rs k)) := by
    rw [cutLog_eq, hnil, List.append_nil]
  have hnext := walOpen_encodeAll _ hw
  rw [← hcut] at hnext
  -- the reopened log is the log of the records before the cut followed by the new ones
  have hfile : (appendAll (walOpen (cutLog rs k)) new).file =
      encodeAll 1 (rs.take (endedBy rs k) ++ new) := by
    rw [file_after_cut, hnil, List.nil_append, hnext, encodeAll_append]
  have hrec : recoverAfterCut rs k new = replays 1 (rs.take (endedBy rs k) ++ new) := by
    obtain ⟨f', _, heq⟩ := walRecoverLoop_append _ 1 [] _ 0 hall (Nat.le_refl _)
    unfold recoverAfterCut walRecover
    rw [hfile]
    simp only [List.append_nil] at heq ⊢
    rw [heq]
    cases f' <;> simp [walRecoverLoop, WAL_HEADER_SIZE]
  refine ⟨?_, ?_⟩
  · rw [hrec, replays_append, hnext]
  · rw [hrec]; exact replays_lsn_increasing _ _ hall

/-- The first callback carries the header at the front of the bytes. -/
theorem walRecoverLoop_head {fuel i : Nat} {b : Bytes} {p : Replay} {ps : List Replay}
    (h : (walRecoverLoop memOk fuel b i).1 = p :: ps) : p.header = WalHeader.decode b := by
  cases fuel with
  | zero => cases h
  | succ fuel =>
    rw [walRecoverLoop] at h
    simp only [memOk] at h
    split at h
    · cases h
    · split at h
      · cases h
      · split at h
        · cases h; rfl
        · simp only [Bool.not_true, Bool.false_eq_true, if_false] at h
          split at h
          · cases h
          · split at h
            · cases h
            · cases h; rfl

/-- The `op_type` byte read from the front depends on the first 13 bytes only. -/
theorem decode_opType_congr {b c : Bytes} (h : b.take 13 = c.take 13) :
    (WalHeader.decode b).opType = (WalHeader.decode c).opType := by
  have hs : ∀ x : Bytes, slice 12 1 x = (x.take 13).drop 12 := fun x => by
    simp [slice, List.drop_take]
  simp only [WalHeader.decode, hs, h]

/-- Two markers of one transaction at one LSN agree on everything before the operation. -/
theorem marker_take12 (op op' : WalOp) (txn : UInt32) (lsn : UInt64) :
    ((WalRecord.marker op txn).encode lsn).take 12 =
      ((WalRecord.marker op' txn).encode lsn).take 12 := by
  simp [WalRecord.encode, WalHeader.encode, WalRecord.header, WalRecord.marker, toLE]

/-- Behind bytes that belong to no record, a commit and an abort cannot both be read back: the operation
is byte 12 of a header, which the two of them do not reach. -/
theorem marker_swallowed {t : Bytes} (ht : t ≠ []) (lsn : UInt64)
    (hop : ∀ op : WalOp, (WalHeader.decode (t ++ (WalRecord.marker op 0).encode lsn)).opType = op.code) :
    False := by
  have hpos : 0 < t.length := List.length_pos_of_ne_nil ht
  have hsame : (t ++ (WalRecord.marker .commit 0).encode lsn).take 13 =
      (t ++ (WalRecord.marker .abort 0).encode lsn).take 13 := by
    simp only [List.take_append]
    congr 1
    have := congrArg (List.take (13 - t.length)) (marker_take12 .commit .abort 0 lsn)
    rwa [List.take_take, List.take_take, Nat.min_eq_left (by omega)] at this
  have hcontra := decode_opType_congr hsame
  rw [hop, hop] at hcontra
  exact absurd hcontra (by decide)

/-- **When a torn log stays usable.**  Appending nothing is always harmless; and the log stays
usable for every sequence of further records exactly when the cut falls on a record boundary.
(The bound leaves room for 64-bit LSNs; a file of `2 ^ 63` bytes holds fewer than `2 ^ 59`
records.) -/
theorem tornTail_iff (rs : List WalRecord) (k : Nat) (hl : rs.length < 2 ^ 59) :
    TornTailOk rs k [] ∧
    ((∀ new : List WalRecord, new.length < 2 ^ 59 → TornTailOk rs k new) ↔ CutOnBoundary rs k) := by
  have h1 : (1 : UInt64).toNat = 1 := rfl
  have hlrs : LsnRoom 1 rs := ⟨by decide, by omega⟩
  refine ⟨tornTailOk_nil k hlrs, ?_, ?_⟩
  · intro hall
    by_contra hb
    have hne : tornTail 1 k rs ≠ [] := by
      intro hnil
      exact hb ⟨endedBy rs k, by rw [cutLog_eq, hnil, List.append_nil, appendAll_file]; rfl⟩
    -- append a single marker: its own operation code must come back from byte 12
    refine marker_swallowed hne (walOpen (cutLog rs k)).nextLsn fun op => ?_
    obtain ⟨hout, _⟩ := hall [.marker op 0] (by simp)
    obtain ⟨fuel, i, _, heq⟩ := recoverAfterCut_eq (k := k) hlrs [.marker op 0]
    rw [heq] at hout
    have hloop := List.append_cancel_left hout
    rw [replays, replays, encodeAll, encodeAll, List.append_nil] at hloop
    rw [← walRecoverLoop_head hloop]
    rfl
  · intro hb new hn
    refine tornTailOk_of_boundary ⟨by decide, ?_⟩ hb
    rw [List.length_append]; omega

/-- The witness of `tornTail_iff` on a log of two commits cut after the first. -/
theorem tornTail_iff_boundary :
    ([.marker .commit 1, .marker .commit 2] : List WalRecord).length < 2 ^ 59 ∧
    TornTailOk [.marker .commit 1, .marker .commit 2] 20 [] ∧
    ((∀ new : List WalRecord, new.length < 2 ^ 59 →
        TornTailOk [.marker .commit 1, .marker .commit 2] 20 new) ↔
      CutOnBoundary [.marker .commit 1, .marker .commit 2] 20) :=
  ⟨by decide, tornTail_iff _ 20 (by decide)⟩

/-- Two commits, the second cut after five bytes, then a third commit: the reopened log replays
a record made of the torn header and the front of the new one. -/
theorem tornTail_swallows :
    ¬ TornTailOk [.marker .commit 1, .marker .commit 2] 25 [.marker .commit 3] := by
  intro h
  exact absurd h.1 (by decide)

end Ticketing
