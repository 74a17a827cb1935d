import Ticketing.Storage.TableStore

/-!
# The table layer refines ordered tables

`specCall` says what a call of `table.h` is for: a table is the list of its records under their ids, in
the order of insertion.

* `specCall`, `specStep` — the calls on that list.
* `CallAssumed` — what the callers of the table layer keep to; `CallFits` adds what `table_count` needs.
* `TableLayerRel`, `table_call_refines` — one call.
* `table_layer_refines` — any calls in a row; `count_overflows` — a table of `2 ^ 31` records.
-/

set_option autoImplicit false

namespace Ticketing

open Bytes

/-! ## Ordered tables of records -/

/-- One call on the list of live records. -/
def specCall (id : TableId) (T : OTable Bytes) : RowCall → RowResult × OTable Bytes
  | .insert record _ => (.inserted .ok T.nextId, T.insert (storedRecord id T.nextId record))
  | .find key => (.found ((T.get? key).elim (.error .errNotFound) .ok), T)
  | .update key record =>
    (T.get? key).elim (.changed (.error .errNotFound), T) fun _ =>
      (.changed (.ok ()), T.update key (record.bytes (etpRecordSize id)))
  | .delete key =>
    (T.get? key).elim (.changed (.error .errNotFound), T) fun _ => (.changed (.ok ()), T.erase key)
  | .scan filter max => (.scanned ((T.scan filter max).map Prod.snd), T)
  | .count => (.counted T.rows.length, T)

/-- One call on one of the tables; the others stay as they are. -/
def specStep (T : TableId → OTable Bytes) (c : TableId × RowCall) :
    Except BadAccess RowResult × (TableId → OTable Bytes) :=
  (.ok (specCall c.1 (T c.1) c.2).1, Function.update T c.1 (specCall c.1 (T c.1) c.2).2)

/-- What callers keep to: memory for the index, records that are not marked as deleted, and fewer than
`2 ^ 32 - 1` insertions. -/
def CallAssumed (T : TableId → OTable Bytes) (c : TableId × RowCall) : Prop :=
  match c.2 with
  | .insert record alloc =>
    alloc = allocOk ∧ record (getDeletedFlagOffset c.1) = 0 ∧ (T c.1).nextId + 1 < 2 ^ 32
  | .update _ record => record (getDeletedFlagOffset c.1) = 0
  | _ => True

/-- The record that is stored is not marked as deleted. -/
def RowCall.Unmarked (id : TableId) : RowCall → Prop
  | .insert record _ => record (getDeletedFlagOffset id) = 0
  | .update _ record => record (getDeletedFlagOffset id) = 0
  | _ => True

/-- The number that `table_count` returns fits its type. -/
def CountFits (T : TableId → OTable Bytes) (c : TableId × RowCall) : Prop :=
  match c.2 with
  | .count => (T c.1).rows.length < 2 ^ 31
  | _ => True

instance (T : TableId → OTable Bytes) (c : TableId × RowCall) : Decidable (CountFits T c) := by
  unfold CountFits
  split <;> infer_instance

/-- The call keeps to the conventions, and its result fits. -/
def CallFits (T : TableId → OTable Bytes) (c : TableId × RowCall) : Prop := CallAssumed T c ∧ CountFits T c

/-! ## One call -/

section Records

variable {id : TableId} {record : Memory}

theorem recordDeleted_bytes (h : record (getDeletedFlagOffset id) = 0) :
    recordDeleted id (record.bytes (etpRecordSize id)) = false := by
  have hflag := getDeletedFlagOffset_lt id
  unfold recordDeleted Memory.bytes
  rw [List.getD_eq_getElem?_getD, List.getElem?_map, List.getElem?_range hflag, Option.map_some,
    Option.getD_some, h]
  rfl

/-- The key is not where the deletion flag is. -/
theorem stampKey_flag (newId : Nat) :
    stampKey id newId record (getDeletedFlagOffset id) = record (getDeletedFlagOffset id) := by
  have hdisjoint := key_flag_disjoint id
  unfold stampKey
  rw [if_neg (by omega)]

theorem recordDeleted_storedRecord (h : record (getDeletedFlagOffset id) = 0) (newId : Nat) :
    recordDeleted id (storedRecord id newId record) = false :=
  recordDeleted_bytes ((stampKey_flag newId).trans h)

end Records

theorem CallAssumed.unmarked {L : TableId → OTable Bytes} {c : TableId × RowCall} (hc : CallAssumed L c) :
    c.2.Unmarked c.1 := by
  obtain ⟨id, c⟩ := c
  cases c with
  | insert record alloc => exact hc.2.1
  | update key record => exact hc
  | find key => trivial
  | delete key => trivial
  | scan filter max => trivial
  | count => trivial

/-- The live records after a call. -/
theorem liveRows_slotCall {T : TableId → OTable Bytes} {L : TableId → OTable Bytes}
    (hL : ∀ id, L id = liveRows id (T id)) {c : TableId × RowCall} (hc : c.2.Unmarked c.1)
    (hlen : ∀ r ∈ (T c.1).rows, r.2.length = etpRecordSize c.1) :
    liveRows c.1 (slotCall c.1 (T c.1) c.2).2 = (specCall c.1 (L c.1) c.2).2 := by
  obtain ⟨id, c⟩ := c
  dsimp only at hlen ⊢
  have hL := hL id
  cases c with
  | insert record alloc =>
    simp only [slotCall, specCall, hL]
    exact OTable.filter_insert (by rw [recordDeleted_storedRecord hc]; rfl)
  | find key => exact hL.symm
  | update key record =>
    simp only [slotCall, specCall, hL]
    cases hlive : (liveRows id (T id)).get? key with
    | none => rfl
    | some a =>
      obtain ⟨hget, halive⟩ := get?_liveRows.mp hlive
      exact OTable.filter_update hget (by rw [halive]; rfl) (by rw [recordDeleted_bytes hc]; rfl)
  | delete key =>
    simp only [slotCall, specCall, hL]
    cases hlive : (liveRows id (T id)).get? key with
    | none => rfl
    | some a =>
      obtain ⟨hget, -⟩ := get?_liveRows.mp hlive
      have hrecord := hlen (key, a) (OTable.mem_iff.mpr hget)
      exact OTable.filter_update_erase hget (by rw [recordDeleted_deletedRecord hrecord]; rfl)
  | scan filter max => exact hL.symm
  | count => exact hL.symm

/-- What the call returns. -/
theorem slotCall_result {id : TableId} {T L : OTable Bytes} (hL : L = liveRows id T) {c : RowCall}
    (hcount : c = .count → L.rows.length < 2 ^ 31) : (slotCall id T c).1 = (specCall id L c).1 := by
  subst hL
  cases c with
  | insert record alloc => rfl
  | find key => rfl
  | update key record =>
    simp only [slotCall, specCall]
    cases (liveRows id T).get? key <;> rfl
  | delete key =>
    simp only [slotCall, specCall]
    cases (liveRows id T).get? key <;> rfl
  | scan filter max => rfl
  | count =>
    simp only [slotCall, specCall]
    rw [toCInt_of_lt (hcount rfl)]

/-- The store holds the live records; its indexes have room for more keys, and its log has numbers for `k`
more records. -/
structure TableLayerRel (n k : Nat) (s : TableStore) (L : TableId → OTable Bytes) : Prop where
  holds : ∃ T, StoreHolds n s T ∧ ∀ id, L id = liveRows id (T id)
  indexes : ∀ id, ∃ m, BTreeInv BTREE_DEFAULT_ORDER (s.index id) m
  lsn : s.wal.nextLsn ≠ INVALID_LSN
  lsns : s.wal.nextLsn.toNat + k < 2 ^ 64

section Call

variable {n : Nat} {s : TableStore} {L T : TableId → OTable Bytes} {c : TableId × RowCall}

theorem TableLayerRel.ready {k : Nat} (h : TableLayerRel n (k + 1) s L) (hT : ∀ id, L id = liveRows id (T id))
    (hc : CallAssumed L c) : c.2.Ready (T c.1) (s.index c.1) s.wal := by
  obtain ⟨id, c⟩ := c
  have hnext : (L id).nextId = (T id).nextId := by rw [hT]; rfl
  cases c with
  | insert record alloc =>
    obtain ⟨rfl, -, hids⟩ := hc
    obtain ⟨m, hinv⟩ := h.indexes id
    exact ⟨hnext ▸ hids, hinv.hasRoom (by decide) _, h.lsn⟩
  | update key record => exact h.lsn
  | delete key => exact h.lsn
  | find key => trivial
  | scan filter max => trivial
  | count => trivial

/-- A call logs one record at most. -/
theorem CallLogs.length_le {id : TableId} {T : OTable Bytes} {recs : List WalRecord} {c : RowCall}
    (h : CallLogs id T recs c) : recs.length ≤ 1 := by
  have hnil : recs = [] → recs.length ≤ 1 := fun h => by rw [h]; exact Nat.zero_le _
  cases c with
  | insert record alloc => exact Nat.le_of_eq (congrArg List.length h)
  | update key record =>
    simp only [CallLogs] at h
    cases hlive : (liveRows id T).get? key with
    | none =>
      rw [hlive] at h
      exact hnil h
    | some a =>
      rw [hlive] at h
      obtain ⟨old, rfl⟩ := h
      exact Nat.le_refl _
  | delete key =>
    simp only [CallLogs] at h
    cases hlive : (liveRows id T).get? key with
    | none =>
      rw [hlive] at h
      exact hnil h
    | some a =>
      rw [hlive] at h
      obtain ⟨old, rfl⟩ := h
      exact Nat.le_refl _
  | find key => exact hnil h
  | scan filter max => exact hnil h
  | count => exact hnil h

theorem IndexMoved.inv {t t' : BTree} (hmoved : IndexMoved allocOk t t')
    (h : ∃ m, BTreeInv BTREE_DEFAULT_ORDER t m) : ∃ m, BTreeInv BTREE_DEFAULT_ORDER t' m := by
  obtain ⟨m, hinv⟩ := h
  rcases hmoved with rfl | ⟨-, op, rfl⟩
  · exact ⟨m, hinv⟩
  · exact ⟨_, (btreeStep_refines (by decide) hinv op).2⟩

/-- Memory for the index keeps all indexes in shape. -/
theorem Called.indexes {s' : TableStore} (h : Called s T c s') (halloc : c.2.alloc = allocOk)
    (hinv : ∀ id, ∃ m, BTreeInv BTREE_DEFAULT_ORDER (s.index id) m) (id : TableId) :
    ∃ m, BTreeInv BTREE_DEFAULT_ORDER (s'.index id) m := by
  rcases eq_or_ne id c.1 with rfl | hne
  · have hmoved := h.moved
    rw [halloc] at hmoved
    exact hmoved.inv (hinv c.1)
  · rw [h.others id hne]
    exact hinv id

theorem CallAssumed.alloc (hc : CallAssumed L c) : c.2.alloc = allocOk := by
  obtain ⟨id, c⟩ := c
  cases c with
  | insert record alloc => exact hc.1
  | find key => rfl
  | update key record => rfl
  | delete key => rfl
  | scan filter max => rfl
  | count => rfl

/-- One more record, or none. -/
theorem logged_lsn {wal : Wal} {recs : List WalRecord} {k : Nat} (hrecs : recs.length ≤ 1)
    (hlsn : wal.nextLsn ≠ INVALID_LSN) (hroom : wal.nextLsn.toNat + (k + 1) < 2 ^ 64) :
    (recs.foldl Wal.logged wal).nextLsn ≠ INVALID_LSN ∧
      (recs.foldl Wal.logged wal).nextLsn.toNat + k < 2 ^ 64 := by
  match recs, hrecs with
  | [], _ => exact ⟨hlsn, by rw [List.foldl_nil]; omega⟩
  | [r], _ =>
    have hnext : (wal.nextLsn + 1).toNat = wal.nextLsn.toNat + 1 := by
      rw [UInt64.toNat_add]
      exact Nat.mod_eq_of_lt (by simp; omega)
    rw [List.foldl_cons, List.foldl_nil]
    unfold Wal.logged
    dsimp only
    refine ⟨fun hzero => ?_, by omega⟩
    rw [hzero] at hnext
    exact absurd hnext (by simp [INVALID_LSN])

theorem TableHolds.lengths {table : Table} {T : OTable Bytes} {mem : PageKey → Bytes} {pages : Int → Nat}
    {t : BTree} (h : TableHolds table T mem pages t) :
    ∀ r ∈ T.rows, r.2.length = etpRecordSize table.id := by
  obtain ⟨heap, hrows, hpages, -⟩ := h.stored
  rintro ⟨key, a⟩ hr
  rw [← hrows] at hr
  obtain ⟨p, s, hat⟩ := Paged.at_of_mem hr
  exact (hpages.inPage hat).2.length

/-- **One call** keeps the relation, whatever it counts. -/
theorem TableLayerRel.call {k : Nat} (h : TableLayerRel n (k + 1) s L) (hn : 0 < n) (hn' : n < 2 ^ 30)
    (hc : CallAssumed L c) : TableLayerRel n k (s.call c).2 (specStep L c).2 ∧
      (CountFits L c → (s.call c).1 = (specStep L c).1) := by
  obtain ⟨T, hholds, hT⟩ := h.holds
  obtain ⟨mem, pages, -, htables⟩ := hholds.tables
  obtain ⟨s', hcall, hholds', hcalled⟩ := hholds.call hn hn' (h.ready hT hc)
  obtain ⟨recs, hlogs, hwal⟩ := hcalled.logged
  obtain ⟨hlsn, hlsns⟩ := logged_lsn hlogs.length_le h.lsn h.lsns
  rw [hcall]
  refine ⟨⟨⟨slotCallAll T c, hholds', fun id => ?_⟩, hcalled.indexes hc.alloc h.indexes, hwal ▸ hlsn,
    hwal ▸ hlsns⟩, fun hcount => ?_⟩
  · unfold slotCallAll specStep
    dsimp only
    rcases eq_or_ne id c.1 with rfl | hne
    · rw [Function.update_self, Function.update_self]
      exact (liveRows_slotCall hT hc.unmarked (htables c.1).lengths).symm
    · rw [Function.update_of_ne hne, Function.update_of_ne hne]
      exact hT id
  · refine congrArg Except.ok (slotCall_result (hT c.1) fun heq => ?_)
    obtain ⟨id, call⟩ := c
    cases heq
    exact hcount

end Call

/-! ## Runs -/

/-- Tables just created hold nothing. -/
theorem tableLayerRel_create {n k : Nat} (hn' : n < 2 ^ 30) {fd : TableId → Int}
    (hfd : Function.Injective fd) (hk : k + 1 < 2 ^ 64) :
    TableLayerRel n k (tablesCreate n fd) fun _ => OTable.empty 1 :=
  ⟨⟨fun _ => OTable.empty 1, storeHolds_create hn' hfd, fun _ => rfl⟩,
    fun _ => ⟨∅, (@btreeCreate_inv BTREE_DEFAULT_ORDER (by decide)).saved⟩,
    show (1 : UInt64) ≠ INVALID_LSN by decide, show 1 + k < 2 ^ 64 by omega⟩

/-- The descriptors 3 to 7. -/
def fiveFds (id : TableId) : Int := 3 + id.code

theorem fiveFds_injective : Function.Injective fiveFds := fun _ _ h =>
  TableId.code_injective (Int.ofNat.inj (Int.add_left_cancel h))

/-- A record of zeros for `booking_seats`. -/
def seatInsert : TableId × RowCall := (.bookingSeats, .insert (fun _ => 0) allocOk)

theorem table_layer_run {n k : Nat} (hn : 0 < n) (hn' : n < 2 ^ 30) {fd : TableId → Int}
    (hfd : Function.Injective fd) (calls : List (TableId × RowCall))
    (hlsns : calls.length + k + 1 < 2 ^ 64)
    (hfits : OpsOk specStep CallFits (fun _ => OTable.empty 1) calls) :
    (runOps TableStore.call (tablesCreate n fd) calls).1 =
        (runOps specStep (fun _ => OTable.empty 1) calls).1 ∧
      TableLayerRel n k (runOps TableStore.call (tablesCreate n fd) calls).2
        (runOps specStep (fun _ => OTable.empty 1) calls).2 := by
  refine runOps_refines_upto (TableLayerRel n) CallFits (fun k s L c h hc => ?_) calls
    (tableLayerRel_create hn' hfd hlsns) hfits
  obtain ⟨hrel, hresult⟩ := h.call hn hn' hc.1
  exact ⟨hresult hc.2, hrel⟩

/-- **The table layer refines ordered tables.**  Five tables that have just been created share a pool of
fewer than `2 ^ 30` frames.  Any calls on them, as long as the log has numbers for their records and no
table has `2 ^ 31` records when it is counted, return what the lists of their records return. -/
theorem table_layer_refines {n : Nat} (hn : 0 < n) (hn' : n < 2 ^ 30) {fd : TableId → Int}
    (hfd : Function.Injective fd) (calls : List (TableId × RowCall)) (hlsns : calls.length + 1 < 2 ^ 64)
    (hfits : OpsOk specStep CallFits (fun _ => OTable.empty 1) calls) :
    (runOps TableStore.call (tablesCreate n fd) calls).1 =
      (runOps specStep (fun _ => OTable.empty 1) calls).1 :=
  (table_layer_run hn hn' hfd calls (k := 0) hlsns hfits).1

/-- Two records, of which one is updated and the other deleted, over a pool of one frame. -/
theorem table_layer_refines_seats :
    let calls := [seatInsert, seatInsert, (.bookingSeats, .update 2 fun _ => 0), (.bookingSeats, .delete 1),
      (.users, .find 2), (.bookingSeats, .scan (fun _ => true) 5), (.bookingSeats, .count)]
    (runOps TableStore.call (tablesCreate 1 fiveFds) calls).1 =
      (runOps specStep (fun _ => OTable.empty 1) calls).1 :=
  table_layer_refines Nat.one_pos (by decide) fiveFds_injective _ (by decide)
    ⟨⟨⟨rfl, rfl, by decide⟩, trivial⟩, ⟨⟨rfl, rfl, by decide⟩, trivial⟩, ⟨rfl, trivial⟩, ⟨trivial, trivial⟩,
      ⟨trivial, trivial⟩, ⟨trivial, trivial⟩, ⟨trivial, by decide⟩, trivial⟩

/-! ## A table of `2 ^ 31` records -/

theorem specStep_seatInsert (T : TableId → OTable Bytes) : ∃ a,
    (specStep T seatInsert).2 = Function.update T .bookingSeats ((T .bookingSeats).insert a) :=
  ⟨_, rfl⟩

/-- Insertions one after another. -/
theorem seatInserts (k : Nat) : ∀ T : TableId → OTable Bytes, (T .bookingSeats).nextId + k < 2 ^ 32 →
    OpsOk specStep CallFits T (List.replicate k seatInsert) ∧
      ((runOps specStep T (List.replicate k seatInsert)).2 .bookingSeats).rows.length =
        (T .bookingSeats).rows.length + k := by
  induction k with
  | zero => exact fun T _ => ⟨trivial, rfl⟩
  | succ k ih =>
    intro T hids
    obtain ⟨a, hstep⟩ := specStep_seatInsert T
    rw [List.replicate_succ]
    have hnext : ((specStep T seatInsert).2 .bookingSeats).nextId = (T .bookingSeats).nextId + 1 := by
      rw [hstep, Function.update_self]
      rfl
    have hrows : ((specStep T seatInsert).2 .bookingSeats).rows.length =
        (T .bookingSeats).rows.length + 1 := by
      rw [hstep, Function.update_self, OTable.rows_insert, List.length_append]
      rfl
    obtain ⟨hok, hlen⟩ := ih (specStep T seatInsert).2 (by rw [hnext]; omega)
    refine ⟨⟨⟨⟨rfl, rfl, ?_⟩, trivial⟩, hok⟩, ?_⟩
    · show (T .bookingSeats).nextId + 1 < 2 ^ 32
      omega
    · rw [runOps, hlen, hrows]
      omega

/-- Then they are counted. -/
theorem seat_count {k : Nat} (hk : k + 1 < 2 ^ 32) :
    let calls := List.replicate k seatInsert ++ [(TableId.bookingSeats, RowCall.count)]
    OpsOk specStep CallAssumed (fun _ => OTable.empty 1) calls ∧
      (runOps TableStore.call (tablesCreate 1 fiveFds) calls).1.getLast? =
        some (.ok (.counted (toCInt k))) ∧
      (runOps specStep (fun _ => OTable.empty 1) calls).1.getLast? = some (.ok (.counted k)) := by
  intro calls
  obtain ⟨hok, hlen⟩ := seatInserts k (fun _ => OTable.empty 1) (by rw [Nat.add_comm]; exact hk)
  rw [show (OTable.empty 1 : OTable Bytes).rows.length = 0 from rfl, Nat.zero_add] at hlen
  have hnumbers : (List.replicate k seatInsert).length + 1 + 1 < 2 ^ 64 := by
    rw [List.length_replicate]
    omega
  obtain ⟨-, hrel⟩ := table_layer_run Nat.one_pos (by decide) fiveFds_injective _ hnumbers hok
  generalize hfinal : (runOps TableStore.call (tablesCreate 1 fiveFds) (List.replicate k seatInsert)).2 = s
    at hrel
  generalize hspec : (runOps specStep (fun _ => OTable.empty 1) (List.replicate k seatInsert)).2 = L
    at hrel hlen
  obtain ⟨T, hholds, hT⟩ := hrel.holds
  obtain ⟨s', hcall, -⟩ := hholds.call (c := (.bookingSeats, .count)) Nat.one_pos (by decide) trivial
  refine ⟨(OpsOk.mono (fun _ _ h => h.1) hok).concat trivial, ?_, ?_⟩
  · rw [runOps_concat, hfinal, hcall, List.getLast?_concat]
    have hrows : (liveRows .bookingSeats (T .bookingSeats)).rows.length = k := by
      rw [← hT, hlen]
    simp only [slotCall, hrows]
  · rw [runOps_concat, hspec, List.getLast?_concat]
    simp only [specStep, specCall, hlen]

/-- `2 ^ 31` records of `booking_seats` are inserted one after another, and counted: `count` in
`table_count` is an `int`. -/
theorem count_overflows :
    let calls := List.replicate (2 ^ 31) seatInsert ++ [(TableId.bookingSeats, RowCall.count)]
    OpsOk specStep CallAssumed (fun _ => OTable.empty 1) calls ∧
      (runOps TableStore.call (tablesCreate 1 fiveFds) calls).1.getLast? =
        some (.ok (.counted (-2 ^ 31))) ∧
      (runOps specStep (fun _ => OTable.empty 1) calls).1.getLast? = some (.ok (.counted (2 ^ 31))) := by
  intro calls
  obtain ⟨hok, hcount, hspec⟩ := @seat_count (2 ^ 31) (by decide)
  refine ⟨hok, hcount.trans ?_, hspec⟩
  rw [show toCInt ((2 ^ 31 : Nat) : Int) = -2 ^ 31 by decide]

end Ticketing
