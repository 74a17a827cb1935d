import Ticketing.Storage.TableHistory

/-!
# The log determines the data

`wal_recover` hands the records of the log to a callback one after another.  Folded by table and record id,
they give the records of the tables.

* `Replay.apply`, `recoveredData` — the fold.
* `Determines` — it gives the live records; `Determines.call` for one call.
* `LogHolds.recovered` — the fold over the file is that over its records.
-/

set_option autoImplicit false

namespace Ticketing

open Bytes

/-! ## The fold -/

/-- For a table and a record id the bytes of a record. -/
abbrev LoggedData := UInt8 → UInt32 → Option Bytes

/-- `INSERT` and `UPDATE` set an entry, `DELETE` removes it. -/
def Replay.apply (data : LoggedData) (p : Replay) : LoggedData := fun table key =>
  if table = p.header.tableId ∧ key = p.header.recordId then
    if p.header.opType = WalOp.insert.code ∨ p.header.opType = WalOp.update.code then p.newData
    else if p.header.opType = WalOp.delete.code then none
    else data table key
  else data table key

/-- What `wal_recover` replays when it finds memory for its buffers, folded. -/
def recoveredData (file : Bytes) : LoggedData :=
  (walRecover memOk file).1.foldl Replay.apply fun _ _ => none

section Records

variable {id id' : TableId} {data : LoggedData} {k : Nat} {key : UInt32} {lsn : UInt64}

theorem tableCode_eq_iff : UInt8.ofNat id.code = UInt8.ofNat id'.code ↔ id = id' := by
  cases id <;> cases id' <;> decide

theorem key_eq_ofNat_iff (hk : k < 2 ^ 32) : key = UInt32.ofNat k ↔ key.toNat = k := by
  rw [← UInt32.toNat_inj, UInt32.toNat_ofNat']
  rw [Nat.mod_eq_of_lt hk]

theorem recordImage_val (m : Memory) : (recordImage id m).1 = m.bytes (etpRecordSize id) := by
  have hsize : (UInt16.ofNat (etpRecordSize id)).toNat = etpRecordSize id := by cases id <;> decide
  show m.bytes (UInt16.ofNat (etpRecordSize id)).toNat = _
  rw [hsize]

theorem recordSize_ne_zero (id : TableId) : UInt16.ofNat (etpRecordSize id) ≠ 0 := by
  cases id <;> decide

/-- An insertion or an update in the log. -/
theorem apply_stored {op : WalOp} (hop : op = .insert ∨ op = .update)
    (old : Option (Image (UInt16.ofNat (etpRecordSize id)))) (m : Memory) :
    (WalRecord.replay ⟨CURRENT_TXN_ID, op, id, UInt32.ofNat k, UInt16.ofNat (etpRecordSize id), old,
      some (recordImage id m)⟩ lsn).apply data = fun table key =>
        if table = UInt8.ofNat id.code ∧ key = UInt32.ofNat k then some (m.bytes (etpRecordSize id))
        else data table key := by
  funext table key
  unfold WalRecord.replay
  rw [if_neg (recordSize_ne_zero id), ← recordImage_val]
  rcases hop with rfl | rfl <;> rfl

/-- A deletion. -/
theorem apply_deleteLog (old : Memory) : ((deleteLog id k old).replay lsn).apply data =
    fun table key => if table = UInt8.ofNat id.code ∧ key = UInt32.ofNat k then none
      else data table key := by
  have hsize : (deleteLog id k old).dataSize ≠ 0 := recordSize_ne_zero id
  funext table key
  unfold WalRecord.replay
  rw [if_neg hsize]
  rfl

end Records

/-! ## One call -/

/-- Folding the records gives the live records of every table. -/
def Determines (recs : List WalRecord) (T : TableId → OTable Bytes) : Prop :=
  ∀ id (key : UInt32), ((replays 1 recs).foldl Replay.apply fun _ _ => none) (UInt8.ofNat id.code) key =
    (liveRows id (T id)).get? key.toNat

section Call

variable {recs : List WalRecord} {T : TableId → OTable Bytes}

/-- One more record. -/
theorem Determines.append (h : Determines recs T) {id : TableId} {T' : OTable Bytes} {r : WalRecord} {k : Nat}
    {v : Option Bytes} (hr : ∀ (data : LoggedData) lsn, (r.replay lsn).apply data = fun table key =>
      if table = UInt8.ofNat id.code ∧ key = UInt32.ofNat k then v else data table key) (hk : k < 2 ^ 32)
    (hself : (liveRows id T').get? k = v)
    (hother : ∀ k', k' ≠ k → (liveRows id T').get? k' = (liveRows id (T id)).get? k') :
    Determines (recs ++ [r]) (Function.update T id T') := by
  intro id' key
  rw [replays_append, List.foldl_append, replays, replays, List.foldl_cons, List.foldl_nil, hr]
  simp only [tableCode_eq_iff, key_eq_ofNat_iff hk]
  rcases eq_or_ne id' id with rfl | hne
  · rw [Function.update_self]
    rcases eq_or_ne key.toNat k with hkey | hkey
    · rw [if_pos ⟨rfl, hkey⟩, hkey, hself]
    · rw [if_neg fun hboth => hkey hboth.2, hother _ hkey]
      exact h id' key
  · rw [if_neg fun hboth => hne hboth.1, Function.update_of_ne hne]
    exact h id' key

/-- A call that changes nothing logs nothing. -/
theorem Determines.same (h : Determines recs T) {id : TableId} {T' : OTable Bytes} {rs : List WalRecord}
    (hrs : rs = []) (hT : T' = T id) : Determines (recs ++ rs) (Function.update T id T') := by
  rw [hrs, hT, Function.update_eq_self, List.append_nil]
  exact h

/-- **One call** logs what it does to the live records. -/
theorem Determines.call (h : Determines recs T) {id : TableId} {c : RowCall} {rs : List WalRecord}
    (hlogs : CallLogs id (T id) rs c) (hc : c.Unmarked id)
    (hlen : ∀ r ∈ (T id).rows, r.2.length = etpRecordSize id) (hids : (T id).nextId < 2 ^ 32) :
    Determines (recs ++ rs) (slotCallAll T (id, c)) := by
  have hlive := @liveRows_slotCall T _ (fun _ => rfl) (id, c) hc hlen
  dsimp only at hlive
  have hsmall : ∀ {k a}, (liveRows id (T id)).get? k = some a → k < 2 ^ 32 := fun hget =>
    Nat.lt_trans (OTable.get?_lt hget) hids
  unfold slotCallAll
  dsimp only
  cases c with
  | insert record alloc =>
    obtain rfl : rs = _ := hlogs
    have hnext : (T id).nextId = (liveRows id (T id)).nextId := rfl
    refine h.append (fun _ _ => apply_stored (Or.inl rfl) none _) hids ?_ fun k' hk' => ?_
    · rw [hlive, hnext]
      exact OTable.get?_insert_self _ _
    · rw [hlive]
      exact OTable.get?_insert_ne hk'
  | update key record =>
    simp only [CallLogs] at hlogs
    simp only [slotCall, specCall] at hlive ⊢
    cases hget : (liveRows id (T id)).get? key with
    | none =>
      rw [hget] at hlogs
      exact h.same hlogs rfl
    | some a =>
      rw [hget] at hlogs hlive
      obtain ⟨old, rfl⟩ := hlogs
      simp only [Option.elim_some] at hlive ⊢
      refine h.append (fun _ _ => apply_stored (Or.inr rfl) (some (recordImage _ old)) _) (hsmall hget) ?_
        fun k' hk' => ?_
      · rw [hlive]
        exact OTable.get?_update_self hget
      · rw [hlive]
        exact OTable.get?_update_ne hk'
  | delete key =>
    simp only [CallLogs] at hlogs
    simp only [slotCall, specCall] at hlive ⊢
    cases hget : (liveRows id (T id)).get? key with
    | none =>
      rw [hget] at hlogs
      exact h.same hlogs rfl
    | some a =>
      rw [hget] at hlogs hlive
      obtain ⟨old, rfl⟩ := hlogs
      simp only [Option.elim_some] at hlive ⊢
      refine h.append (fun _ _ => apply_deleteLog old) (hsmall hget) ?_ fun k' hk' => ?_
      · rw [hlive]
        exact OTable.get?_erase_self _ _
      · rw [hlive]
        exact OTable.get?_erase_ne hk'
  | find key => exact h.same hlogs rfl
  | scan filter max => exact h.same hlogs rfl
  | count => exact h.same hlogs rfl

/-- The log as `wal_recover` reads it. -/
theorem LogHolds.recovered {wal : Wal} (h : LogHolds recs wal) (hroom : recs.length + 1 < 2 ^ 64) :
    recoveredData wal.file = (replays 1 recs).foldl Replay.apply fun _ _ => none := by
  have hlsns : LsnRoom 1 recs := ⟨by decide, by show 1 + recs.length < _; omega⟩
  obtain ⟨fuel, -, hloop⟩ := walRecoverLoop_append recs 1 [] (encodeAll 1 recs).length 0 hlsns
    (by rw [List.append_nil])
  have hend : (walRecoverLoop memOk fuel [] (0 + recs.length)).1 = [] := by
    cases fuel <;> rfl
  unfold recoveredData walRecover
  rw [h.file]
  rw [List.append_nil] at hloop
  rw [hloop, hend, List.append_nil]

end Call

end Ticketing
