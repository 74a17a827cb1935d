import Ticketing.Lib.Runs
import Ticketing.Storage.WalReopen

/-!
# Appends that fail

`wal_append` writes a record in up to three pieces and returns at the first write that falls short,
without taking back what has reached the file.  The next record then starts in the middle of the torn
one, with the same LSN.

* `writesFail`, `leftBytes` — whether one of the writes falls short, and what has reached the file then.
* `walAppend_spec` — what a call returns and leaves in the file.
* `LogIntact` — the log is what the calls that returned an LSN made of it.
* `failed_append_leaves_log_intact` — exactly when it is.
-/

set_option autoImplicit false

namespace Ticketing

open Bytes

/-! ## One call -/

/-- A write of `n` bytes does not store them all. -/
def IoResult.fallsShort (n : Nat) : IoResult → Bool
  | .ok => false
  | .short k => decide (k < n)

/-- One of successive writes falls short. -/
def writesFail : List Nat → IoScript → Bool
  | [], _ => false
  | n :: ns, io => (io 0).fallsShort n || writesFail ns (io.drop 1)

/-- What successive writes store, up to the first that falls short. -/
def leftBytes : List Nat → IoScript → Nat
  | [], _ => 0
  | n :: ns, io =>
    match io 0 with
    | .ok => n + leftBytes ns (io.drop 1)
    | .short k => if k < n then k else n + leftBytes ns (io.drop 1)

/-- Successive writes to a file, up to the first that falls short. -/
def writeAll (file : Bytes) : List Bytes → IoScript → Bytes × Bool
  | [], _ => (file, true)
  | buf :: bufs, io =>
    let w := osWrite file buf (io 0)
    if !w.2 then (w.1, false) else writeAll w.1 bufs (io.drop 1)

/-- The buffers that make up a record. -/
def WalRecord.buffers (r : WalRecord) (lsn : UInt64) : List Bytes :=
  if r.dataSize = 0 then [(r.header lsn).encode]
  else [(r.header lsn).encode, r.oldImage.1, r.newImage.1]

/-- Their sizes. -/
def WalRecord.writeSizes (r : WalRecord) : List Nat :=
  if r.dataSize = 0 then [WAL_HEADER_SIZE]
  else [WAL_HEADER_SIZE, r.dataSize.toNat, r.dataSize.toNat]

/-- A call of `wal_append` and how its writes end; each call has a script of its own. -/
abbrev AppendCall := WalRecord × IoScript

namespace AppendCall

/-- One of the writes fails, or a `calloc` of the zeros to be written. -/
def Fails (c : AppendCall) : Prop := writesFail c.1.writeSizes c.2 = true

instance (c : AppendCall) : Decidable c.Fails := inferInstanceAs (Decidable (_ = true))

/-- What a failed call leaves in the file. -/
def left (c : AppendCall) : Nat := leftBytes c.1.writeSizes c.2

/-- The call fails and part of the record stays in the file. -/
def Torn (c : AppendCall) : Prop := c.Fails ∧ 0 < c.left

/-- The call fails before any byte is written. -/
def Silent (c : AppendCall) : Prop := c.Fails ∧ c.left = 0

end AppendCall

/-- A write stores its buffer or falls short. -/
theorem osWrite_cases (file buf : Bytes) (res : IoResult) :
    res.fallsShort buf.length = false ∧ osWrite file buf res = (file ++ buf, true) ∨
      ∃ k < buf.length, res = .short k ∧ osWrite file buf res = (file ++ buf.take k, false) := by
  cases res with
  | ok => exact Or.inl ⟨rfl, rfl⟩
  | short k =>
    rcases Nat.lt_or_ge k buf.length with hk | hk
    · refine Or.inr ⟨k, hk, rfl, ?_⟩
      rw [osWrite, decide_eq_false (by omega)]
    · refine Or.inl ⟨decide_eq_false (by omega), ?_⟩
      rw [osWrite, List.take_of_length_le hk, decide_eq_true hk]

theorem writesFail_cons_stored {n : Nat} {io : IoScript} (ns : List Nat)
    (h : (io 0).fallsShort n = false) :
    writesFail (n :: ns) io = writesFail ns (io.drop 1) ∧
      leftBytes (n :: ns) io = n + leftBytes ns (io.drop 1) := by
  refine ⟨by rw [writesFail, h, Bool.false_or], ?_⟩
  rw [leftBytes]
  cases hres : io 0 with
  | ok => rfl
  | short k =>
    rw [hres] at h
    exact if_neg (of_decide_eq_false h)

theorem writesFail_cons_short {n k : Nat} {io : IoScript} (ns : List Nat) (h : io 0 = .short k)
    (hk : k < n) : writesFail (n :: ns) io = true ∧ leftBytes (n :: ns) io = k := by
  refine ⟨by rw [writesFail, h, IoResult.fallsShort, decide_eq_true hk, Bool.true_or], ?_⟩
  rw [leftBytes, h]
  exact if_pos hk

/-- Successive writes store everything, or a proper prefix. -/
theorem writeAll_spec : ∀ (bufs : List Bytes) (file : Bytes) (io : IoScript),
    writesFail (bufs.map List.length) io = false ∧
        writeAll file bufs io = (file ++ bufs.flatten, true) ∨
      writesFail (bufs.map List.length) io = true ∧
        leftBytes (bufs.map List.length) io < bufs.flatten.length ∧
        writeAll file bufs io =
          (file ++ bufs.flatten.take (leftBytes (bufs.map List.length) io), false) := by
  intro bufs
  induction bufs with
  | nil => intro file io; exact Or.inl ⟨rfl, by rw [writeAll, List.flatten_nil, List.append_nil]⟩
  | cons buf bufs ih =>
    intro file io
    rw [List.map_cons, List.flatten_cons, List.length_append, writeAll]
    rcases osWrite_cases file buf (io 0) with ⟨hstored, hw⟩ | ⟨k, hk, hio, hw⟩
    · obtain ⟨hfails, hleft⟩ := writesFail_cons_stored (bufs.map List.length) hstored
      rw [hfails, hleft]
      simp only [hw, Bool.not_true, Bool.false_eq_true, if_false]
      rcases ih (file ++ buf) (io.drop 1) with ⟨hok, hall⟩ | ⟨hfail, hlt, hall⟩
      · exact Or.inl ⟨hok, by rw [hall, List.append_assoc]⟩
      · refine Or.inr ⟨hfail, by omega, ?_⟩
        rw [hall, List.append_assoc, List.take_length_add_append]
    · obtain ⟨hfails, hleft⟩ := writesFail_cons_short (bufs.map List.length) hio hk
      rw [hfails, hleft]
      refine Or.inr ⟨rfl, by omega, ?_⟩
      rw [hw, List.take_append_of_le_length (by omega)]
      rfl

theorem walAppend_writeAll (wal : Wal) (r : WalRecord) (io : IoScript) :
    ((walAppend wal r io).1, (walAppend wal r io).2.1) =
      if (writeAll wal.file (r.buffers wal.nextLsn) io).2 then
        (wal.nextLsn, { wal with file := (writeAll wal.file (r.buffers wal.nextLsn) io).1,
                                 nextLsn := wal.nextLsn + 1 })
      else (INVALID_LSN, { wal with file := (writeAll wal.file (r.buffers wal.nextLsn) io).1 }) := by
  have hdrop : (io.drop 1) 0 = io 1 := rfl
  have hdrop' : ((io.drop 1).drop 1) 0 = io 2 := rfl
  unfold walAppend WalRecord.buffers
  by_cases hsize : r.dataSize = 0
  · simp only [hsize, if_true, writeAll]
    generalize osWrite wal.file (r.header wal.nextLsn).encode (io 0) = w
    obtain ⟨file, _ | _⟩ := w <;> rfl
  · simp only [hsize, if_false, writeAll, hdrop, hdrop']
    generalize osWrite wal.file (r.header wal.nextLsn).encode (io 0) = w
    generalize osWrite w.1 r.oldImage.1 (io 1) = w'
    generalize osWrite w'.1 r.newImage.1 (io 2) = w''
    obtain ⟨file, _ | _⟩ := w
    · rfl
    obtain ⟨file', _ | _⟩ := w'
    · rfl
    obtain ⟨file'', _ | _⟩ := w'' <;> rfl

theorem WalRecord.flatten_buffers (r : WalRecord) (lsn : UInt64) :
    (r.buffers lsn).flatten = r.encode lsn := by
  unfold WalRecord.buffers WalRecord.encode
  by_cases hsize : r.dataSize = 0
  · have hnone : r.dataSize.toNat = 0 := by rw [hsize]; rfl
    rw [if_pos hsize, List.eq_nil_of_length_eq_zero (r.oldImage.2.trans hnone),
      List.eq_nil_of_length_eq_zero (r.newImage.2.trans hnone)]
    simp
  · rw [if_neg hsize]
    simp

theorem WalRecord.length_buffers (r : WalRecord) (lsn : UInt64) :
    (r.buffers lsn).map List.length = r.writeSizes := by
  unfold WalRecord.buffers WalRecord.writeSizes
  by_cases hsize : r.dataSize = 0
  · rw [if_pos hsize, if_pos hsize, List.map_singleton, WalHeader.length_encode]
  · rw [if_neg hsize, if_neg hsize]
    simp only [List.map_cons, List.map_nil, WalHeader.length_encode, r.oldImage.2, r.newImage.2]

/-- **One call.**  It returns the next LSN and appends the whole record, or it returns `INVALID_LSN` and
leaves a proper prefix of the record in the file. -/
theorem walAppend_spec (wal : Wal) (c : AppendCall) :
    ¬ c.Fails ∧ (walAppend wal c.1 c.2).1 = wal.nextLsn ∧
        (walAppend wal c.1 c.2).2.1 =
          { wal with file := wal.file ++ c.1.encode wal.nextLsn, nextLsn := wal.nextLsn + 1 } ∨
      c.Fails ∧ (walAppend wal c.1 c.2).1 = INVALID_LSN ∧ c.left < c.1.size ∧
        (walAppend wal c.1 c.2).2.1 =
          { wal with file := wal.file ++ (c.1.encode wal.nextLsn).take c.left } := by
  have hcall := walAppend_writeAll wal c.1 c.2
  have hspec := writeAll_spec (c.1.buffers wal.nextLsn) wal.file c.2
  rw [WalRecord.flatten_buffers, WalRecord.length_buffers, WalRecord.length_encode] at hspec
  rcases hspec with ⟨hok, hall⟩ | ⟨hfail, hlt, hall⟩
  · rw [hall, if_pos rfl, Prod.mk.injEq] at hcall
    exact Or.inl ⟨by rw [AppendCall.Fails, hok]; exact Bool.false_ne_true, hcall⟩
  · rw [hall, if_neg Bool.false_ne_true, Prod.mk.injEq] at hcall
    exact Or.inr ⟨hfail, hcall.1, hlt, hcall.2⟩

/-! ## Runs -/

def appendCall (wal : Wal) (c : AppendCall) : UInt64 × Wal :=
  let s := walAppend wal c.1 c.2
  (s.1, s.2.1)

/-- The records of the calls that do not fail. -/
def completed (calls : List AppendCall) : List WalRecord :=
  (calls.filter fun c => ¬ c.Fails).map Prod.fst

/-- The calls of a run with what they return. -/
def returned (wal : Wal) (calls : List AppendCall) : List (AppendCall × UInt64) :=
  calls.zip (runOps appendCall wal calls).1

/-- The records of the calls that returned a valid LSN, with it. -/
def validAppends (wal : Wal) (calls : List AppendCall) : List (WalRecord × UInt64) :=
  ((returned wal calls).filter fun p => p.2 ≠ INVALID_LSN).map fun p => (p.1.1, p.2)

/-- **The log is intact**: recovery, which finds memory for its buffers, replays the records of the calls that
returned an LSN. -/
structure LogIntact (calls : List AppendCall) : Prop where
  failed : ∀ p ∈ returned walCreate calls, p.1.Fails → p.2 = INVALID_LSN
  replayed : (walRecover memOk (runOps appendCall walCreate calls).2.file).1 =
    (validAppends walCreate calls).map fun p => p.1.replay p.2
  distinct : ((validAppends walCreate calls).map Prod.snd).Nodup

/-- Records with successive LSNs. -/
def numbered : UInt64 → List WalRecord → List (WalRecord × UInt64)
  | _, [] => []
  | lsn, r :: rs => (r, lsn) :: numbered (lsn + 1) rs

theorem numbered_replays (rs : List WalRecord) : ∀ lsn : UInt64,
    (numbered lsn rs).map (fun p => p.1.replay p.2) = replays lsn rs := by
  induction rs with
  | nil => intro lsn; rfl
  | cons r rs ih =>
    intro lsn
    rw [numbered, List.map_cons, ih, replays]

theorem numbered_lsns (rs : List WalRecord) : ∀ lsn : UInt64,
    (numbered lsn rs).map Prod.snd = (replays lsn rs).map (·.header.lsn) := by
  induction rs with
  | nil => intro lsn; rfl
  | cons r rs ih =>
    intro lsn
    rw [numbered, List.map_cons, ih, replays, List.map_cons]
    congr 1
    unfold WalRecord.replay
    split <;> rfl

theorem completed_cons (c : AppendCall) (calls : List AppendCall) :
    completed (c :: calls) = if c.Fails then completed calls else c.1 :: completed calls := by
  unfold completed
  by_cases h : c.Fails
  · rw [if_pos h, List.filter_cons_of_neg (by simpa using h)]
  · rw [if_neg h, List.filter_cons_of_pos (by simpa using h), List.map_cons]

theorem completed_append (calls calls' : List AppendCall) :
    completed (calls ++ calls') = completed calls ++ completed calls' := by
  rw [completed, List.filter_append, List.map_append]
  rfl

/-- **What the calls return**: successive LSNs, whatever the calls that fail leave in the file. -/
theorem returned_spec (calls : List AppendCall) : ∀ wal : Wal,
    LsnRoom wal.nextLsn (completed calls) →
    validAppends wal calls = numbered wal.nextLsn (completed calls) ∧
      (∀ p ∈ returned wal calls, p.1.Fails → p.2 = INVALID_LSN) ∧
      (runOps appendCall wal calls).2.nextLsn =
        wal.nextLsn + UInt64.ofNat (completed calls).length := by
  induction calls with
  | nil =>
    intro wal _
    exact ⟨rfl, fun p hp => absurd hp List.not_mem_nil, (UInt64.add_zero _).symm⟩
  | cons c calls ih =>
    intro wal hroom
    rw [completed_cons] at hroom ⊢
    have hzip : returned wal (c :: calls) =
        (c, (walAppend wal c.1 c.2).1) :: returned (walAppend wal c.1 c.2).2.1 calls := rfl
    have hrun : (runOps appendCall wal (c :: calls)).2 =
        (runOps appendCall (walAppend wal c.1 c.2).2.1 calls).2 := rfl
    rw [hrun, validAppends, hzip]
    rcases walAppend_spec wal c with ⟨hok, hlsn, hwal⟩ | ⟨hfail, hlsn, -, hwal⟩
    · rw [if_neg hok] at hroom ⊢
      have hnext : (walAppend wal c.1 c.2).2.1.nextLsn = wal.nextLsn + 1 := by rw [hwal]
      obtain ⟨hvalid, hfailed, hfin⟩ := ih (walAppend wal c.1 c.2).2.1 (hnext ▸ hroom.tail.1)
      rw [hnext] at hvalid hfin
      refine ⟨?_, ?_, ?_⟩
      · rw [hlsn, List.filter_cons_of_pos (by simpa using hroom.ne_zero), List.map_cons, numbered,
          ← hvalid]
        rfl
      · intro p hp hpf
        rcases List.mem_cons.mp hp with rfl | hp
        · exact absurd hpf hok
        · exact hfailed p hp hpf
      · rw [hfin, List.length_cons, UInt64.ofNat_add, UInt64.add_assoc, UInt64.add_comm 1]
        rfl
    · rw [if_pos hfail] at hroom ⊢
      have hnext : (walAppend wal c.1 c.2).2.1.nextLsn = wal.nextLsn := by rw [hwal]
      obtain ⟨hvalid, hfailed, hfin⟩ := ih (walAppend wal c.1 c.2).2.1 (hnext ▸ hroom)
      rw [hnext] at hvalid hfin
      refine ⟨?_, ?_, hfin⟩
      · rw [hlsn, List.filter_cons_of_neg (by simp), ← hvalid]
        rfl
      · intro p hp hpf
        rcases List.mem_cons.mp hp with rfl | hp
        · exact hlsn
        · exact hfailed p hp hpf

/-- Calls that leave nothing behind when they fail add the completed records to the file. -/
theorem file_of_not_torn (calls : List AppendCall) : ∀ wal : Wal, (∀ c ∈ calls, ¬ c.Torn) →
    (runOps appendCall wal calls).2.file = wal.file ++ encodeAll wal.nextLsn (completed calls) := by
  induction calls with
  | nil => intro wal _; exact (List.append_nil _).symm
  | cons c calls ih =>
    intro wal h
    rw [List.forall_mem_cons] at h
    have hrun : (runOps appendCall wal (c :: calls)).2 =
        (runOps appendCall (walAppend wal c.1 c.2).2.1 calls).2 := rfl
    rw [hrun, ih _ h.2, completed_cons]
    rcases walAppend_spec wal c with ⟨hok, -, hwal⟩ | ⟨hfail, -, -, hwal⟩
    · rw [if_neg hok, hwal, encodeAll, List.append_assoc]
    · have hleft : c.left = 0 := Nat.eq_zero_of_not_pos fun hpos => h.1 ⟨hfail, hpos⟩
      rw [if_pos hfail, hwal, hleft, List.take_zero, List.append_nil]

/-- The length of the file: the completed records, and what failed calls have left. -/
theorem length_file (calls : List AppendCall) : ∀ wal : Wal,
    (runOps appendCall wal calls).2.file.length =
      wal.file.length + ((completed calls).map WalRecord.size).sum +
        ((calls.filter fun c => c.Fails).map AppendCall.left).sum := by
  induction calls with
  | nil => intro wal; rfl
  | cons c calls ih =>
    intro wal
    have hrun : (runOps appendCall wal (c :: calls)).2 =
        (runOps appendCall (walAppend wal c.1 c.2).2.1 calls).2 := rfl
    rw [hrun, ih, completed_cons]
    rcases walAppend_spec wal c with ⟨hok, -, hwal⟩ | ⟨hfail, -, hlt, hwal⟩
    · rw [if_neg hok, hwal, List.filter_cons_of_neg (by simpa using hok), List.map_cons, List.sum_cons,
        List.length_append, WalRecord.length_encode]
      omega
    · rw [if_pos hfail, hwal, List.filter_cons_of_pos (by simpa using hfail), List.map_cons,
        List.sum_cons, List.length_append, List.length_take, WalRecord.length_encode,
        Nat.min_eq_left (Nat.le_of_lt hlt)]
      omega

/-! ## A torn record at the end -/

/-- A record may be torn only where nothing is written after it. -/
def TornLast (calls : List AppendCall) : Prop := calls.Pairwise fun c d => c.Torn → d.Silent

theorem not_torn_of_silent {c : AppendCall} (h : c.Silent) : ¬ c.Torn := fun ht => by
  have := h.2
  have := ht.2
  omega

theorem completed_silent {calls : List AppendCall} (h : ∀ c ∈ calls, c.Silent) :
    completed calls = [] := by
  rw [completed, List.filter_eq_nil_iff.mpr fun c hc => by simpa using (h c hc).1, List.map_nil]

/-- No call of the run is torn, or one is and nothing is written from there on. -/
theorem TornLast.cases {calls : List AppendCall} (h : TornLast calls) :
    (∀ c ∈ calls, ¬ c.Torn) ∨ ∃ front c back, calls = front ++ c :: back ∧ (∀ d ∈ front, ¬ d.Torn) ∧
      c.Torn ∧ ∀ d ∈ back, d.Silent := by
  induction calls with
  | nil => exact Or.inl fun c hc => absurd hc List.not_mem_nil
  | cons c calls ih =>
    rw [TornLast, List.pairwise_cons] at h
    by_cases hc : c.Torn
    · exact Or.inr ⟨[], c, calls, rfl, fun d hd => absurd hd List.not_mem_nil, hc, fun d hd => h.1 d hd hc⟩
    · rcases ih h.2 with hnone | ⟨front, d, back, rfl, hfront, hd, hback⟩
      · exact Or.inl (List.forall_mem_cons.mpr ⟨hc, hnone⟩)
      · exact Or.inr ⟨c :: front, d, back, rfl, List.forall_mem_cons.mpr ⟨hc, hfront⟩, hd, hback⟩

/-- Then the file is the completed records and perhaps the front of one more. -/
theorem TornLast.file {calls : List AppendCall} (h : TornLast calls) :
    ∃ tail, (runOps appendCall walCreate calls).2.file = encodeAll 1 (completed calls) ++ tail ∧
      ∀ fuel i, walRecoverLoop memOk fuel tail i = ([], true) := by
  have hcreate : walCreate.file = [] := rfl
  rcases h.cases with hnone | ⟨front, c, back, rfl, hfront, hc, hback⟩
  · refine ⟨[], ?_, fun fuel i => ?_⟩
    · rw [file_of_not_torn calls walCreate hnone, hcreate, List.nil_append, List.append_nil]
      rfl
    · cases fuel with
      | zero => rfl
      | succ fuel => rw [walRecoverLoop, if_pos (by decide)]
  · have hsilent := fun d hd => not_torn_of_silent (hback d hd)
    rw [completed_append, completed_cons, if_pos hc.1, completed_silent hback, List.append_nil]
    rcases walAppend_spec (runOps appendCall walCreate front).2 c with ⟨hok, -⟩ | ⟨-, -, hlt, hwal⟩
    · exact absurd hc.1 hok
    · refine ⟨(c.1.encode (runOps appendCall walCreate front).2.nextLsn).take c.left, ?_,
        walRecoverLoop_torn c.1 _ hlt⟩
      have hrun : (runOps appendCall walCreate (front ++ c :: back)).2 = (runOps appendCall
          (walAppend (runOps appendCall walCreate front).2 c.1 c.2).2.1 back).2 := by
        rw [runOps_append]
        rfl
      rw [hrun, file_of_not_torn back _ hsilent, completed_silent hback, hwal, encodeAll,
        List.append_nil, file_of_not_torn front walCreate hfront, hcreate, List.nil_append]
      rfl

/-- Recovery of such a file. -/
theorem TornLast.intact {calls : List AppendCall} (h : TornLast calls)
    (hroom : LsnRoom 1 (completed calls)) : LogIntact calls := by
  obtain ⟨hvalid, hfailed, -⟩ := returned_spec calls walCreate hroom
  have hnext : walCreate.nextLsn = 1 := rfl
  rw [hnext] at hvalid
  refine ⟨hfailed, ?_, ?_⟩
  · obtain ⟨tail, hfile, htail⟩ := h.file
    obtain ⟨fuel, -, hloop⟩ := walRecoverLoop_append (completed calls) 1 tail _ 0 hroom (Nat.le_refl _)
    rw [htail, List.append_nil] at hloop
    rw [hvalid, numbered_replays, walRecover, hfile, hloop]
  · rw [hvalid, numbered_lsns]
    exact (replays_lsn_increasing _ _ hroom).imp UInt64.ne_of_lt

/-! ## A record after a torn one -/

/-- The bytes of the records that recovery has replayed. -/
def consumed (ps : List Replay) : Nat :=
  (ps.map fun p => WAL_HEADER_SIZE + 2 * p.header.dataSize.toNat).sum

theorem decode_append {b : Bytes} (h : WAL_HEADER_SIZE ≤ b.length) (x : Bytes) :
    WalHeader.decode (b ++ x) = WalHeader.decode b := by
  have hlen : 20 ≤ b.length := h
  simp only [WalHeader.decode]
  rw [slice_append_left (by omega), slice_append_left (by omega), slice_append_left (by omega),
    slice_append_left (by omega), slice_append_left (by omega), slice_append_left (by omega)]

/-- One turn of the loop, whatever stands behind the bytes it looks at. -/
theorem walRecoverLoop_cases (b : Bytes) :
    (∀ fuel i, (walRecoverLoop memOk fuel b i).1 = []) ∨
      ∃ p : Replay, WAL_HEADER_SIZE + 2 * p.header.dataSize.toNat ≤ b.length ∧ ∀ x fuel i,
        (walRecoverLoop memOk (fuel + 1) (b ++ x) i).1 = p ::
          (walRecoverLoop memOk fuel
            (b.drop (WAL_HEADER_SIZE + 2 * p.header.dataSize.toNat) ++ x) (i + 1)).1 := by
  by_cases hstop : ∀ fuel i, (walRecoverLoop memOk fuel b i).1 = []
  · exact Or.inl hstop
  right
  -- the record is complete, else the loop would stop
  have hlen : WAL_HEADER_SIZE ≤ b.length := by
    by_contra hshort
    refine hstop fun fuel i => ?_
    cases fuel with
    | zero => rfl
    | succ fuel => rw [walRecoverLoop, if_pos (by omega)]
  have hlsn : (WalHeader.decode b).lsn ≠ INVALID_LSN := by
    intro hinvalid
    refine hstop fun fuel i => ?_
    cases fuel with
    | zero => rfl
    | succ fuel => rw [walRecoverLoop, if_neg (by omega)]; simp only [if_pos hinvalid]
  have hlong : ∀ x : Bytes, ¬ (b ++ x).length < WAL_HEADER_SIZE := fun x => by
    rw [List.length_append]
    omega
  by_cases hsize : (WalHeader.decode b).dataSize = 0
  · have hnone : (WalHeader.decode b).dataSize.toNat = 0 := by rw [hsize]; rfl
    refine ⟨⟨WalHeader.decode b, none, none⟩, by rw [hnone]; omega, fun x fuel i => ?_⟩
    rw [walRecoverLoop, if_neg (hlong x)]
    simp only [decode_append hlen, if_neg hlsn, if_pos hsize, hnone, Nat.mul_zero, Nat.add_zero]
    rw [List.drop_append_of_le_length hlen]
  · have hwhole : WAL_HEADER_SIZE + 2 * (WalHeader.decode b).dataSize.toNat ≤ b.length := by
      by_contra hcut
      refine hstop fun fuel i => ?_
      cases fuel with
      | zero => rfl
      | succ fuel =>
        have hnew : (slice (WAL_HEADER_SIZE + (WalHeader.decode b).dataSize.toNat)
            (WalHeader.decode b).dataSize.toNat b).length ≠ (WalHeader.decode b).dataSize.toNat := by
          simp only [slice, List.length_take, List.length_drop]
          omega
        rw [walRecoverLoop, if_neg (by omega)]
        simp only [if_neg hlsn, if_neg hsize, memOk, Bool.not_true, Bool.false_eq_true, if_false,
          if_pos hnew, ite_self]
    refine ⟨⟨WalHeader.decode b,
      some (slice WAL_HEADER_SIZE (WalHeader.decode b).dataSize.toNat b),
      some (slice (WAL_HEADER_SIZE + (WalHeader.decode b).dataSize.toNat)
        (WalHeader.decode b).dataSize.toNat b)⟩, hwhole, fun x fuel i => ?_⟩
    rw [walRecoverLoop, if_neg (hlong x)]
    simp only [decode_append hlen, if_neg hlsn, if_neg hsize, memOk, Bool.not_true, Bool.false_eq_true,
      if_false]
    rw [slice_append_left (by omega), slice_append_left (by omega), length_slice (by omega),
      length_slice (by omega), List.drop_append_of_le_length hwhole]
    simp

/-- **Bytes behind a log** do not change what is replayed before them: recovery goes on at the end of
the last record it has replayed. -/
theorem walRecoverLoop_extend (x : Bytes) : ∀ (fuel : Nat) (b : Bytes) (i : Nat), b.length ≤ fuel →
    consumed (walRecoverLoop memOk fuel b i).1 ≤ b.length ∧
      ∀ fuel' i', (b ++ x).length ≤ fuel' → ∃ fuel'' i'',
        (walRecoverLoop memOk fuel' (b ++ x) i').1 = (walRecoverLoop memOk fuel b i).1 ++
          (walRecoverLoop memOk fuel''
            (b.drop (consumed (walRecoverLoop memOk fuel b i).1) ++ x) i'').1 := by
  intro fuel
  induction fuel with
  | zero => intro b i _; exact ⟨Nat.zero_le _, fun fuel' i' _ => ⟨fuel', i', rfl⟩⟩
  | succ fuel ih =>
    intro b i hf
    rcases walRecoverLoop_cases b with hnone | ⟨p, hlen, hloop⟩
    · rw [hnone]
      exact ⟨Nat.zero_le _, fun fuel' i' _ => ⟨fuel', i', rfl⟩⟩
    · have hself := hloop [] fuel i
      rw [List.append_nil, List.append_nil] at hself
      have hdrop : (b.drop (WAL_HEADER_SIZE + 2 * p.header.dataSize.toNat)).length ≤ fuel := by
        have : 0 < WAL_HEADER_SIZE := by decide
        rw [List.length_drop]
        omega
      obtain ⟨hle, hrest⟩ := ih _ (i + 1) hdrop
      have hconsumed : ∀ ps, consumed (p :: ps) =
          WAL_HEADER_SIZE + 2 * p.header.dataSize.toNat + consumed ps := fun ps => by
        rw [consumed, List.map_cons, List.sum_cons]
        rfl
      rw [hself, hconsumed]
      rw [List.length_drop] at hle
      refine ⟨by omega, fun fuel' i' hf' => ?_⟩
      obtain ⟨fuel', rfl⟩ : ∃ f, fuel' = f + 1 := by
        refine ⟨fuel' - 1, ?_⟩
        have : 0 < WAL_HEADER_SIZE := by decide
        rw [List.length_append] at hf'
        omega
      have hroom : (b.drop (WAL_HEADER_SIZE + 2 * p.header.dataSize.toNat) ++ x).length ≤ fuel' := by
        have : 0 < WAL_HEADER_SIZE := by decide
        rw [List.length_append, List.length_drop]
        rw [List.length_append] at hf'
        omega
      obtain ⟨fuel'', i'', heq⟩ := hrest fuel' (i' + 1) hroom
      refine ⟨fuel'', i'', ?_⟩
      rw [hloop x fuel' i', heq, List.cons_append, List.drop_drop]

/-- The calls of a run without faults. -/
def faultless (rs : List WalRecord) : List AppendCall := rs.map fun r => (r, IoScript.ok)

theorem not_fails_ok (r : WalRecord) : ¬ AppendCall.Fails (r, IoScript.ok) := by
  have hnever : ∀ ns : List Nat, writesFail ns IoScript.ok = false := fun ns => by
    induction ns with
    | nil => rfl
    | cons n ns ih => rw [writesFail, IoScript.drop_ok, ih]; rfl
  rw [AppendCall.Fails, hnever]
  exact Bool.false_ne_true

theorem completed_faultless (rs : List WalRecord) : completed (faultless rs) = rs := by
  induction rs with
  | nil => rfl
  | cons r rs ih =>
    rw [faultless, List.map_cons, completed_cons, if_neg (not_fails_ok r)]
    exact congrArg _ ih

/-- What recovery consumes of an intact log are the completed records. -/
theorem consumed_replays (rs : List WalRecord) : ∀ lsn : UInt64,
    consumed (replays lsn rs) = (rs.map WalRecord.size).sum := by
  induction rs with
  | nil => intro lsn; rfl
  | cons r rs ih =>
    intro lsn
    have hsize : (r.replay lsn).header.dataSize = r.dataSize := by
      unfold WalRecord.replay
      split <;> rfl
    have hcons : consumed (replays lsn (r :: rs)) =
        WAL_HEADER_SIZE + 2 * (r.replay lsn).header.dataSize.toNat + consumed (replays (lsn + 1) rs) := by
      rw [replays, consumed, List.map_cons, List.sum_cons]
      rfl
    rw [hcons, hsize, ih, List.map_cons, List.sum_cons]
    rfl

theorem LogIntact.replays {calls : List AppendCall} (h : LogIntact calls)
    (hroom : LsnRoom 1 (completed calls)) :
    (walRecover memOk (runOps appendCall walCreate calls).2.file).1 = replays 1 (completed calls) := by
  rw [h.replayed, (returned_spec calls walCreate hroom).1, numbered_replays]
  rfl

/-- **A record after a torn one.**  If every further marker leaves the log intact then no call of the
run has left bytes behind. -/
theorem not_torn_of_intact {calls : List AppendCall} (hroom : (completed calls).length + 2 < 2 ^ 64)
    (hself : LogIntact calls)
    (hnext : ∀ op, LogIntact (calls ++ faultless [.marker op 0])) : ∀ c ∈ calls, ¬ c.Torn := by
  have hone : (1 : UInt64).toNat = 1 := rfl
  have hcreate : walCreate.nextLsn = 1 := rfl
  have hlsn : LsnRoom 1 (completed calls) := ⟨by decide, by omega⟩
  intro c hc htorn
  have hreplayed := hself.replays hlsn
  -- what failed calls have left stands behind the last record that is replayed
  have hbehind : ((runOps appendCall walCreate calls).2.file.drop
      (consumed (replays 1 (completed calls)))) ≠ [] := by
    have hlen := length_file calls walCreate
    have hleft : 0 < ((calls.filter fun c => c.Fails).map AppendCall.left).sum :=
      List.sum_pos_iff_exists_pos_nat.mpr ⟨c.left,
        List.mem_map_of_mem (List.mem_filter.mpr ⟨hc, by simpa using htorn.1⟩), htorn.2⟩
    rw [consumed_replays, ← List.length_pos_iff, List.length_drop, hlen]
    omega
  refine marker_swallowed hbehind (1 + UInt64.ofNat (completed calls).length) fun op => ?_
  have hmore : completed (calls ++ faultless [.marker op 0]) = completed calls ++ [.marker op 0] := by
    rw [completed_append, completed_faultless]
  have hlsn' : LsnRoom 1 (completed (calls ++ faultless [.marker op 0])) := by
    refine ⟨by decide, ?_⟩
    rw [hmore, List.length_append, List.length_singleton]
    omega
  have hnext' := (hnext op).replays hlsn'
  rw [hmore, replays_append, replays, replays] at hnext'
  have hfile : (runOps appendCall walCreate (calls ++ faultless [.marker op 0])).2.file =
      (runOps appendCall walCreate calls).2.file ++
        (WalRecord.marker op 0).encode (1 + UInt64.ofNat (completed calls).length) := by
    have hrun : (runOps appendCall walCreate (calls ++ faultless [.marker op 0])).2 =
        (walAppend (runOps appendCall walCreate calls).2 (.marker op 0) IoScript.ok).2.1 := by
      rw [runOps_append]
      rfl
    rw [hrun, walAppend_ok, (returned_spec calls walCreate hlsn).2.2, hcreate]
  obtain ⟨fuel, i, hloop⟩ := (walRecoverLoop_extend
    ((WalRecord.marker op 0).encode (1 + UInt64.ofNat (completed calls).length)) _
    (runOps appendCall walCreate calls).2.file 0 (Nat.le_refl _)).2 _ 0 (Nat.le_refl _)
  rw [walRecover] at hreplayed hnext'
  simp only at hreplayed hnext'
  rw [hreplayed, ← hfile, hnext'] at hloop
  have htail := List.append_cancel_left hloop
  rw [← walRecoverLoop_head htail.symm]
  rfl

/-- **A failed append leaves the log intact unless part of its record stays in the file.**  If nothing
is written after a torn record, every failing call has returned `INVALID_LSN` and recovery replays the
records of the others; and the log stays intact whatever records are appended next exactly if no
failing call has left a byte in the file.  (LSNs have 64 bits.) -/
theorem failed_append_leaves_log_intact (calls : List AppendCall)
    (hroom : (completed calls).length + 2 < 2 ^ 64) :
    (TornLast calls → LogIntact calls) ∧
      ((∀ rs : List WalRecord, (completed calls).length + rs.length + 1 < 2 ^ 64 →
          LogIntact (calls ++ faultless rs)) ↔
        ∀ c ∈ calls, ¬ c.Torn) := by
  have hone : (1 : UInt64).toNat = 1 := rfl
  refine ⟨fun h => h.intact ⟨by decide, by omega⟩, fun h => ?_, fun h rs hrs => ?_⟩
  · refine not_torn_of_intact hroom ?_ fun op => h _ (by rw [List.length_singleton]; omega)
    have := h [] (by rw [List.length_nil]; omega)
    rwa [faultless, List.map_nil, List.append_nil] at this
  · have hnone : ∀ c ∈ calls ++ faultless rs, ¬ c.Torn := by
      intro c hc
      rcases List.mem_append.mp hc with hc | hc
      · exact h c hc
      · obtain ⟨r, -, rfl⟩ := List.mem_map.mp hc
        exact fun ht => not_fails_ok r ht.1
    have hlast : TornLast (calls ++ faultless rs) :=
      List.pairwise_of_forall_mem_list fun c hc d _ ht => absurd ht (hnone c hc)
    refine hlast.intact ⟨by decide, ?_⟩
    rw [completed_append, completed_faultless, List.length_append]
    omega

/-- A commit, one torn after five bytes, and one that fails before its first byte. -/
theorem failed_append_leaves_log_intact_last :
    LogIntact [(.marker .commit 1, IoScript.ok), (.marker .commit 2, fun _ => .short 5),
      (.marker .commit 3, fun _ => .short 0)] := by
  have hsilent : AppendCall.Silent (.marker .commit 3, fun _ => .short 0) := ⟨by decide, by decide⟩
  refine (failed_append_leaves_log_intact _ (by decide)).1 ?_
  refine List.Pairwise.cons (fun d _ ht => absurd ht.1 (not_fails_ok _)) ?_
  refine List.Pairwise.cons (fun d hd _ => ?_) (List.pairwise_singleton _ _)
  rw [List.mem_singleton.mp hd]
  exact hsilent

/-- Three commits, the second torn after five bytes: recovery makes one record of its front and the
front of the third. -/
theorem torn_append_swallows_next :
    ¬ LogIntact [(.marker .commit 1, IoScript.ok), (.marker .commit 2, fun _ => .short 5),
      (.marker .commit 3, IoScript.ok)] := by
  intro h
  exact absurd h.replayed (by decide)

end Ticketing
