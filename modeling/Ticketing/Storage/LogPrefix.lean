import Ticketing.Storage.LogMoments

/-!
# The log after a crash

Appending to the log may stop after any byte.  What recovery makes of the part that is there is the data
as it was after some step of the history.

* `TableHistory.Restored` — the tables hold what recovery makes of a file.
* `LogHolds.cut` — a record that is not there to its end does not count.
* `crash_restores_earlier_state` — the log cut at any byte.
-/

set_option autoImplicit false

namespace Ticketing

open Bytes

/-- Every lookup finds what folding the records of `file` gives. -/
def TableHistory.Restored (s : TableHistory) (file : Bytes) : Prop :=
  ∀ id (key : UInt32), (s.store.call (id, .find key.toNat)).1 =
    .ok (.found ((recoveredData file (UInt8.ofNat id.code) key).elim (.error .errNotFound) .ok))

/-- The length of the log file. -/
def TableHistory.logLength (s : TableHistory) : Nat := s.store.wal.file.length

section Records

variable {recs rs : List WalRecord} {k : Nat}

/-- Records that are there to their ends. -/
theorem wholeRecords_append (recs : List WalRecord) : ∀ {k : Nat}, (recs.map WalRecord.size).sum ≤ k →
    wholeRecords k (recs ++ rs) = recs ++ wholeRecords (k - (recs.map WalRecord.size).sum) rs := by
  induction recs with
  | nil => exact fun _ => rfl
  | cons r recs ih =>
    intro k hk
    rw [List.map_cons, List.sum_cons] at hk ⊢
    rw [List.cons_append, wholeRecords, if_pos (by omega), ih (by omega), Nat.sub_sub]
    rfl

/-- At most one more record, which is not. -/
theorem wholeRecords_short (hrs : rs.length ≤ 1) (hk : k < (rs.map WalRecord.size).sum) :
    wholeRecords k rs = [] := by
  match rs, hrs with
  | [], _ => rfl
  | [r], _ =>
    rw [List.map_singleton, List.sum_singleton] at hk
    rw [wholeRecords, if_neg (by omega)]

/-- Recovery of the first `k` bytes. -/
theorem recoveredData_take (hroom : recs.length + 1 < 2 ^ 64) (k : Nat) :
    recoveredData ((encodeAll 1 recs).take k) =
      (replays 1 (wholeRecords k recs)).foldl Replay.apply fun _ _ => none := by
  have hlsns : LsnRoom 1 recs := ⟨by decide, by show 1 + recs.length < _; omega⟩
  unfold recoveredData walRecover
  rw [walRecoverLoop_take recs 1 k _ hlsns (Nat.le_refl _)]

/-- **Cut before its end**, a log with one record more gives what it gave before. -/
theorem LogHolds.cut {wal wal' : Wal} (h : LogHolds recs wal) (h' : LogHolds (recs ++ rs) wal')
    (hrs : rs.length ≤ 1) (hroom : (recs ++ rs).length + 1 < 2 ^ 64) (hk : k < wal'.file.length) :
    recoveredData (wal'.file.take k) = recoveredData (wal.file.take k) := by
  have hsize : wal.file.length = (recs.map WalRecord.size).sum := by
    rw [h.file, length_encodeAll]
  rw [h'.file, length_encodeAll, List.map_append, List.sum_append] at hk
  rw [h'.file]
  rcases Nat.lt_or_ge k (recs.map WalRecord.size).sum with hbefore | hafter
  · -- the new record is wholly behind the cut
    rw [encodeAll_append, ← h.file, List.take_append_of_le_length (by omega)]
  · -- the cut goes through it
    have hroom₀ : recs.length + 1 < 2 ^ 64 := by
      rw [List.length_append] at hroom
      omega
    rw [recoveredData_take hroom, wholeRecords_append recs hafter, wholeRecords_short hrs (by omega),
      List.append_nil, List.take_of_length_le (by omega), h.recovered hroom₀]

end Records

section Histories

variable {recs : List WalRecord} {s s' : TableHistory} {T : TableId → OTable Bytes}

/-- The records of a state are all that counts in `file`. -/
theorem Recorded.restored (h : Recorded recs s T) (hroom : recs.length + 1 < 2 ^ 64) {file : Bytes}
    (hfile : recoveredData file = (replays 1 recs).foldl Replay.apply fun _ _ => none) :
    s.Restored file := by
  intro id key
  rw [hfile, h.determines id key]
  exact h.holds.answer hroom trivial

/-- **The log cut at any byte.**  After any history of calls and orderly restarts (ids and room in the
indexes left, updates that keep the key, records stored without the mark of a deletion), cut the log file after any byte.
Folding what `wal_recover` replays from the rest gives the data, table by table and lookup by lookup, as it
was after one of the steps: the last one whose log had been written up to the cut.  So no call is half
there, none is there without the calls before it, and none is lost whose record was written to its end. -/
theorem crash_restores_earlier_state {n : Nat} (hn : 0 < n) (hn' : n < 2 ^ 30) {fd : TableId → Int}
    (hfd : Function.Injective fd) {tr : List (Transition TableHistory TableAct)}
    (hist : History TableHistory.step (.create n fd) tr s)
    (hok : ∀ t ∈ tr, t.before.Orderly t.act ∧ t.act.Unmarked ∧ t.before.Storable) (k : Nat) :
    ∃ later tr₀ s₀, tr = later ++ tr₀ ∧ History TableHistory.step (.create n fd) tr₀ s₀ ∧
      s₀.logLength ≤ k ∧ (∀ t ∈ later, k < t.after.logLength) ∧
      s₀.Restored (s.store.wal.file.take k) := by
  have hstep : ∀ (s : TableHistory) a s', (∃ recs T, Recorded recs s T ∧ recs.length ≤ 2 ^ 63) →
      (s.Orderly a ∧ a.Unmarked ∧ s.Storable) → s.step a = some s' →
      (∃ recs T, Recorded recs s' T ∧ recs.length ≤ 2 ^ 63) ∧ (k < s'.store.wal.file.length →
        recoveredData (s'.store.wal.file.take k) = recoveredData (s.store.wal.file.take k)) := by
    rintro s a s' ⟨recs, T, hrec, -⟩ ⟨horderly, hun, hfile⟩ hs
    have hfew := hrec.few hfile
    obtain ⟨rs, T', hrs, hrec'⟩ := hrec.step (by omega) horderly hun hs
    have hlength : (recs ++ rs).length ≤ 2 ^ 63 := by
      rw [List.length_append]
      omega
    exact ⟨⟨recs ++ rs, T', hrec', hlength⟩, hrec.holds.log.cut hrec'.holds.log hrs (by omega)⟩
  obtain ⟨-, later, tr₀, s₀, htr, hist₀, ⟨recs, T, hrec, hfew⟩, hlow, hhigh, hread⟩ :=
    History.cut (fun s : TableHistory => s.store.wal.file) recoveredData
      ⟨[], _, recorded_create hn hn' hfd, Nat.zero_le _⟩ (Nat.zero_le k) hstep hist hok
  refine ⟨later, tr₀, s₀, htr, hist₀, hlow, hhigh, hrec.restored (by omega) ?_⟩
  rw [hread]
  exact hrec.holds.log.recovered (by omega)

end Histories

/-- The log after an insertion, an update, a restart and a deletion, cut off after sixty bytes. -/
theorem crash_restores_earlier_state_seat : ∃ tr s, History TableHistory.step (.create 1 fiveFds) tr s ∧
    tr.map Transition.act = seatActs ∧ ∃ later tr₀ s₀, tr = later ++ tr₀ ∧
      History TableHistory.step (.create 1 fiveFds) tr₀ s₀ ∧ s₀.logLength ≤ 60 ∧
        s₀.Restored (s.store.wal.file.take 60) := by
  obtain ⟨tr, s, hist, hacts, hok, -⟩ := seatHistory_recorded
  obtain ⟨later, tr₀, s₀, htr, hist₀, hlow, -, hrestored⟩ :=
    crash_restores_earlier_state Nat.one_pos (by decide) fiveFds_injective hist hok 60
  exact ⟨tr, s, hist, hacts, later, tr₀, s₀, htr, hist₀, hlow, hrestored⟩

end Ticketing
