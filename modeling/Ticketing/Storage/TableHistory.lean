import Ticketing.Storage.TableLayer
import Ticketing.Storage.TableRestart
import Ticketing.Storage.WalReopen

/-!
# Tables over many restarts

Calls on the five tables, and orderly restarts between them; ids are collected as they are handed out.

* `TableHistory`, `TableHistory.step` — the tables with the ids that insertions have returned.
* `TableHistory.Orderly` — what callers keep to: ids and room in the index are left, and updates keep the key.
* `LogHolds`, `HistoryHolds` — the log and the tables after any history.
* `orderly_restart` — a restart changes no answer, and ids only grow.
-/

set_option autoImplicit false

namespace Ticketing

open Bytes

/-! ## The log -/

/-- The log of the records `recs`. -/
structure LogHolds (recs : List WalRecord) (wal : Wal) : Prop where
  file : wal.file = encodeAll 1 recs
  nextLsn : wal.nextLsn = 1 + UInt64.ofNat recs.length

section Log

variable {recs : List WalRecord} {wal : Wal}

theorem LogHolds.lsn (h : LogHolds recs wal) (hroom : recs.length + 1 < 2 ^ 64) :
    wal.nextLsn ≠ INVALID_LSN := by
  intro hinvalid
  have hzero := congrArg UInt64.toNat (h.nextLsn.symm.trans hinvalid)
  rw [UInt64.toNat_add, UInt64.toNat_ofNat'] at hzero
  have hone : (1 : UInt64).toNat = 1 := rfl
  have hnone : INVALID_LSN.toNat = 0 := rfl
  omega

theorem LogHolds.logged (h : LogHolds recs wal) (r : WalRecord) : LogHolds (recs ++ [r]) (wal.logged r) := by
  refine ⟨?_, ?_⟩
  · show wal.file ++ r.encode wal.nextLsn = _
    rw [h.file, h.nextLsn, encodeAll_append, encodeAll, encodeAll, List.append_nil]
  · show wal.nextLsn + 1 = _
    rw [h.nextLsn, List.length_append, List.length_singleton, UInt64.ofNat_add, UInt64.add_assoc]
    rfl

theorem LogHolds.append (rs : List WalRecord) : ∀ {recs : List WalRecord} {wal : Wal}, LogHolds recs wal →
    LogHolds (recs ++ rs) (rs.foldl Wal.logged wal) := by
  induction rs with
  | nil =>
    intro recs wal h
    rw [List.append_nil]
    exact h
  | cons r rs ih =>
    intro recs wal h
    have := ih (h.logged r)
    rw [List.append_assoc] at this
    exact this

/-- `wal_open` after an orderly close. -/
theorem LogHolds.open (h : LogHolds recs wal) (hroom : recs.length + 1 < 2 ^ 64) :
    LogHolds recs (walOpen wal.file) := by
  refine ⟨h.file, ?_⟩
  rw [h.file]
  exact walOpen_encodeAll recs ⟨by decide, by show 1 + recs.length < _; omega⟩

end Log

/-! ## Histories -/

/-- The tables, and for each table the ids that insertions have returned, the latest first. -/
structure TableHistory where
  store : TableStore
  assigned : TableId → List Nat

/-- A call on a table, or a restart with a pool of `n` frames and other descriptors. -/
inductive TableAct where
  | call (id : TableId) (c : RowCall)
  | restart (n : Nat) (fd : TableId → Int)

/-- The id that a successful insertion returns. -/
def RowResult.id? : RowResult → Option Nat
  | .inserted .ok id => some id
  | _ => none

namespace TableHistory

/-- One call or restart. -/
def step (s : TableHistory) : TableAct → Option TableHistory
  | .call id c =>
    match s.store.call (id, c) with
    | (.ok result, store) =>
      some ⟨store, Function.update s.assigned id (result.id?.toList ++ s.assigned id)⟩
    | (.error _, _) => none
  | .restart n fd => (s.store.restart n fd).map fun store => ⟨store, s.assigned⟩

/-- `table_create` of all tables. -/
def create (n : Nat) (fd : TableId → Int) : TableHistory := ⟨tablesCreate n fd, fun _ => []⟩

/-- An insertion leaves an id, and the index has room for its key; an update keeps the key; a restart has a
pool and different descriptors. -/
def Orderly (s : TableHistory) : TableAct → Prop
  | .call id (.insert _ alloc) =>
    s.store.nextId id + 1 < 2 ^ 32 ∧ HasRoom alloc (s.store.index id) (s.store.nextId id)
  | .call id (.update key record) => recordKey id (record.bytes (etpRecordSize id)) = key
  | .call _ _ => True
  | .restart n fd => 0 < n ∧ n < 2 ^ 30 ∧ Function.Injective fd

end TableHistory

/-! ## One call -/

section Slots

variable {id : TableId} {T : OTable Bytes} {c : RowCall}

/-- Every record has its id in its key field, as long as updates keep the key. -/
theorem Stamped.slotCall (h : Stamped id T) (hids : T.nextId < 2 ^ 32)
    (hlen : ∀ r ∈ T.rows, r.2.length = etpRecordSize id)
    (hkeep : ∀ key record, c = .update key record → recordKey id (record.bytes (etpRecordSize id)) = key) :
    Stamped id (slotCall id T c).2 := by
  cases c with
  | insert record alloc => exact h.insert (recordKey_storedRecord hids record)
  | update key record =>
    simp only [Ticketing.slotCall]
    cases (liveRows id T).get? key with
    | none => exact h
    | some a => exact h.update (hkeep key record rfl)
  | delete key =>
    simp only [Ticketing.slotCall]
    cases hlive : (liveRows id T).get? key with
    | none => exact h
    | some a =>
      have hrow := OTable.mem_iff.mpr (get?_liveRows.mp hlive).1
      exact h.update ((recordKey_deletedRecord (hlen _ hrow)).trans (h _ hrow))
  | find key => exact h
  | scan filter max => exact h
  | count => exact h

theorem Dense.slotCall (h : Dense T) (hnext : 0 < T.nextId) : Dense (slotCall id T c).2 := by
  cases c with
  | insert record alloc => exact h.insert hnext _
  | update key record =>
    simp only [Ticketing.slotCall]
    cases (liveRows id T).get? key with
    | none => exact h
    | some a => exact h.update key _
  | delete key =>
    simp only [Ticketing.slotCall]
    cases (liveRows id T).get? key with
    | none => exact h
    | some a => exact h.update key _
  | find key => exact h
  | scan filter max => exact h
  | count => exact h

/-- An insertion returns the next id and uses it up; no other call does. -/
theorem slotCall_id : (slotCall id T c).1.id? = none ∧ (slotCall id T c).2.nextId = T.nextId ∨
    (slotCall id T c).1.id? = some T.nextId ∧ (slotCall id T c).2.nextId = T.nextId + 1 := by
  cases c with
  | insert record alloc => exact Or.inr ⟨rfl, rfl⟩
  | update key record =>
    simp only [slotCall]
    cases (liveRows id T).get? key <;> exact Or.inl ⟨rfl, rfl⟩
  | delete key =>
    simp only [slotCall]
    cases (liveRows id T).get? key <;> exact Or.inl ⟨rfl, rfl⟩
  | find key => exact Or.inl ⟨rfl, rfl⟩
  | scan filter max => exact Or.inl ⟨rfl, rfl⟩
  | count => exact Or.inl ⟨rfl, rfl⟩

end Slots

/-! ## Any history -/

/-- The tables hold their lists and the log its records; the ids that have been handed out are used up. -/
structure HistoryHolds (recs : List WalRecord) (s : TableHistory) (T : TableId → OTable Bytes) : Prop where
  store : ∃ n, 0 < n ∧ n < 2 ^ 30 ∧ StoreHolds n s.store T
  stamped : ∀ id, Stamped id (T id)
  dense : ∀ id, Dense (T id)
  log : LogHolds recs s.store.wal
  assigned : ∀ id, (s.assigned id).Pairwise (· > ·) ∧ ∀ a ∈ s.assigned id, a < (T id).nextId

section Histories

variable {recs : List WalRecord} {s : TableHistory} {T : TableId → OTable Bytes}

theorem HistoryHolds.ready (h : HistoryHolds recs s T) (hroom : recs.length + 1 < 2 ^ 64) {id : TableId}
    {c : RowCall} (hc : s.Orderly (.call id c)) : c.Ready (T id) (s.store.index id) s.store.wal := by
  obtain ⟨n, -, -, hstore⟩ := h.store
  have hlsn := h.log.lsn hroom
  cases c with
  | insert record alloc =>
    obtain ⟨hids, hroom⟩ := hc
    rw [(hstore.next id).1] at hids hroom
    exact ⟨hids, hroom, hlsn⟩
  | update key record => exact hlsn
  | delete key => exact hlsn
  | find key => trivial
  | scan filter max => trivial
  | count => trivial

/-- The store keeps the lengths of records. -/
theorem StoreHolds.lengths {n : Nat} {store : TableStore} (h : StoreHolds n store T) (id : TableId) :
    ∀ r ∈ (T id).rows, r.2.length = etpRecordSize id := by
  obtain ⟨mem, pages, -, htables⟩ := h.tables
  exact (htables id).lengths

theorem StoreHolds.next_pos {n : Nat} {store : TableStore} (h : StoreHolds n store T) (id : TableId) :
    0 < (T id).nextId := by
  obtain ⟨mem, pages, -, htables⟩ := h.tables
  exact (htables id).next

/-- **A call** does to the lists what it is for, and logs it. -/
theorem HistoryHolds.call (h : HistoryHolds recs s T) (hroom : recs.length + 1 < 2 ^ 64) {id : TableId}
    {c : RowCall} (hc : s.Orderly (.call id c)) : ∃ s' rs, s.step (.call id c) = some s' ∧
      (s.store.call (id, c)).1 = .ok (slotCall id (T id) c).1 ∧ CallLogs id (T id) rs c ∧
      HistoryHolds (recs ++ rs) s' (slotCallAll T (id, c)) := by
  obtain ⟨n, hn, hn', hstore⟩ := h.store
  obtain ⟨store', hcall, hstore', hcalled⟩ := hstore.call (c := (id, c)) hn hn' (h.ready hroom hc)
  obtain ⟨rs, hlogs, hwal⟩ := hcalled.logged
  have hkeep : ∀ key record, c = .update key record →
      recordKey id (record.bytes (etpRecordSize id)) = key := by
    rintro key record rfl
    exact hc
  refine ⟨_, rs, by rw [TableHistory.step, hcall], by rw [hcall], hlogs,
    ⟨⟨n, hn, hn', hstore'⟩, fun id' => ?_, fun id' => ?_, ?_, fun id' => ?_⟩⟩
  · unfold slotCallAll
    rcases eq_or_ne id' id with rfl | hne
    · rw [Function.update_self]
      exact (h.stamped id').slotCall (hstore.next id').2 (hstore.lengths id') hkeep
    · rw [Function.update_of_ne hne]
      exact h.stamped id'
  · unfold slotCallAll
    rcases eq_or_ne id' id with rfl | hne
    · rw [Function.update_self]
      exact (h.dense id').slotCall (hstore.next_pos id')
    · rw [Function.update_of_ne hne]
      exact h.dense id'
  · show LogHolds (recs ++ rs) store'.wal
    rw [hwal]
    exact h.log.append rs
  · obtain ⟨hsorted, hbelow⟩ := h.assigned id'
    unfold slotCallAll
    dsimp only
    rcases eq_or_ne id' id with rfl | hne
    · rw [Function.update_self, Function.update_self]
      rcases @slotCall_id id' (T id') c with ⟨hnone, hsame⟩ | ⟨hsome, hmore⟩
      · rw [hnone, hsame]
        exact ⟨hsorted, hbelow⟩
      · rw [hsome, hmore]
        refine ⟨List.pairwise_cons.mpr ⟨hbelow, hsorted⟩, fun a ha => ?_⟩
        rcases List.mem_cons.mp ha with rfl | ha
        · exact Nat.lt_succ_self _
        · exact Nat.lt_succ_of_lt (hbelow a ha)
    · rw [Function.update_of_ne hne, Function.update_of_ne hne]
      exact ⟨hsorted, hbelow⟩

/-- **A restart** leaves the lists. -/
theorem HistoryHolds.restart (h : HistoryHolds recs s T) (hroom : recs.length + 1 < 2 ^ 64) {n : Nat}
    {fd : TableId → Int} (hok : s.Orderly (.restart n fd)) : ∃ store,
      s.store.restart n fd = some store ∧ HistoryHolds recs ⟨store, s.assigned⟩ T := by
  obtain ⟨n₀, -, -, hstore⟩ := h.store
  obtain ⟨hn, hn', hfd⟩ := hok
  obtain ⟨store, hrun, hstore', hwal, -⟩ := hstore.restart h.stamped h.dense hn hn' hfd
  refine ⟨store, hrun, ⟨⟨n, hn, hn', hstore'⟩, h.stamped, h.dense, ?_, h.assigned⟩⟩
  show LogHolds recs store.wal
  rw [hwal]
  exact h.log.open hroom

/-- Tables just created. -/
theorem historyHolds_create {n : Nat} (hn : 0 < n) (hn' : n < 2 ^ 30) {fd : TableId → Int}
    (hfd : Function.Injective fd) : HistoryHolds [] (.create n fd) fun _ => OTable.empty 1 :=
  ⟨⟨n, hn, hn', storeHolds_create hn' hfd⟩, fun _ _ hr => absurd hr List.not_mem_nil, fun _ => rfl, ⟨rfl, rfl⟩,
    fun _ => ⟨List.Pairwise.nil, fun _ ha => absurd ha List.not_mem_nil⟩⟩

/-- A step logs one record at most. -/
theorem HistoryHolds.step (h : HistoryHolds recs s T) (hroom : recs.length + 1 < 2 ^ 64) {a : TableAct}
    {s' : TableHistory} (hok : s.Orderly a) (hs : s.step a = some s') :
    ∃ rs T', rs.length ≤ 1 ∧ HistoryHolds (recs ++ rs) s' T' := by
  cases a with
  | call id c =>
    obtain ⟨s'', rs, hcall, -, hlogs, hholds⟩ := h.call hroom hok
    rw [hcall, Option.some.injEq] at hs
    exact ⟨rs, _, hlogs.length_le, hs ▸ hholds⟩
  | restart n fd =>
    obtain ⟨store, hrun, hholds⟩ := h.restart hroom hok
    rw [TableHistory.step, hrun, Option.map_some, Option.some.injEq] at hs
    refine ⟨[], T, Nat.zero_le _, ?_⟩
    rw [List.append_nil, ← hs]
    exact hholds

/-- **Any history** of `k` steps. -/
theorem historyHolds {n : Nat} (hn : 0 < n) (hn' : n < 2 ^ 30) {fd : TableId → Int}
    (hfd : Function.Injective fd) {tr : List (Transition TableHistory TableAct)} {s : TableHistory}
    (hist : History TableHistory.step (.create n fd) tr s) :
    (∀ t ∈ tr, t.before.Orderly t.act) → tr.length + 1 < 2 ^ 64 →
      ∃ recs T, recs.length ≤ tr.length ∧ HistoryHolds recs s T := by
  refine History.invariant (I := fun tr s => (∀ t ∈ tr, t.before.Orderly t.act) → tr.length + 1 < 2 ^ 64 →
    ∃ recs T, recs.length ≤ tr.length ∧ HistoryHolds recs s T) ?_ ?_ hist
  · exact fun _ _ => ⟨[], _, Nat.le_refl _, historyHolds_create hn hn' hfd⟩
  · intro tr s a s' ih hs horderly hshort
    rw [List.forall_mem_cons] at horderly
    rw [List.length_cons] at hshort
    obtain ⟨recs, T, hrecs, hholds⟩ := ih horderly.2 (by omega)
    obtain ⟨rs, T', hrs, hholds'⟩ := hholds.step (by omega) horderly.1 hs
    refine ⟨recs ++ rs, T', ?_, hholds'⟩
    rw [List.length_append, List.length_cons]
    omega

/-! ## Restarts -/

/-- A call that changes nothing. -/
def RowCall.Reads : RowCall → Prop
  | .find _ => True
  | .scan _ _ => True
  | .count => True
  | _ => False

theorem HistoryHolds.answer (h : HistoryHolds recs s T) (hroom : recs.length + 1 < 2 ^ 64) {id : TableId}
    {c : RowCall} (hc : c.Reads) : (s.store.call (id, c)).1 = .ok (slotCall id (T id) c).1 := by
  have horderly : s.Orderly (.call id c) := by
    cases c with
    | find key => trivial
    | scan filter max => trivial
    | count => trivial
    | insert record alloc => exact hc.elim
    | update key record => exact hc.elim
    | delete key => exact hc.elim
  obtain ⟨_, _, _, hanswer, _⟩ := h.call hroom horderly
  exact hanswer

/-- **An orderly restart is the identity.**  After any history of calls and restarts, as long as updates keep
the key of their record, ids are left and the indexes have room: closing all tables and opening them over a
new pool succeeds; every lookup, scan and count answers as before; and an insertion returns a greater id than
all insertions before.  So it does throughout the history, restarts or not. -/
theorem orderly_restart {n : Nat} (hn : 0 < n) (hn' : n < 2 ^ 30) {fd : TableId → Int}
    (hfd : Function.Injective fd) {tr : List (Transition TableHistory TableAct)} {s : TableHistory}
    (hist : History TableHistory.step (.create n fd) tr s) (horderly : ∀ t ∈ tr, t.before.Orderly t.act)
    (hshort : tr.length + 1 < 2 ^ 64) :
    (∀ id, (s.assigned id).Pairwise (· > ·)) ∧
      ∀ n' fd', 0 < n' → n' < 2 ^ 30 → Function.Injective fd' → ∃ store,
        s.store.restart n' fd' = some store ∧
          (∀ id c, c.Reads → (store.call (id, c)).1 = (s.store.call (id, c)).1) ∧
          ∀ id record alloc, store.nextId id + 1 < 2 ^ 32 →
            HasRoom alloc (store.index id) (store.nextId id) → ∃ newId,
              (store.call (id, .insert record alloc)).1 = .ok (.inserted .ok newId) ∧
                ∀ a ∈ s.assigned id, a < newId := by
  obtain ⟨recs, T, hrecs, hholds⟩ := historyHolds hn hn' hfd hist horderly hshort
  refine ⟨fun id => (hholds.assigned id).1, fun n' fd' hpos hsmall hinj => ?_⟩
  obtain ⟨store, hrun, hholds'⟩ := hholds.restart (by omega) ⟨hpos, hsmall, hinj⟩
  refine ⟨store, hrun, fun id c hc => ?_, fun id record alloc hids hfits => ?_⟩
  · exact (hholds'.answer (by omega) hc).trans (hholds.answer (by omega) hc).symm
  · have hok : (TableHistory.mk store s.assigned).Orderly (.call id (.insert record alloc)) := ⟨hids, hfits⟩
    obtain ⟨_, _, _, hanswer, _⟩ := hholds'.call (by omega) hok
    exact ⟨_, hanswer, (hholds.assigned id).2⟩

end Histories

/-! ## A history -/

/-- An insertion into a new table. -/
theorem orderly_create {n : Nat} {fd : TableId → Int} {id : TableId} (record : Memory) :
    (TableHistory.create n fd).Orderly (.call id (.insert record allocOk)) :=
  ⟨show 1 + 1 < 2 ^ 32 by decide, (@btreeCreate_inv BTREE_DEFAULT_ORDER (by decide)).saved.hasRoom (by decide) _⟩

/-- The seat of a booking, under id 1. -/
def seatRecord : Memory := fun i => if i = keyOffset .bookingSeats then 1 else 0

/-- A record is inserted, changed and, after a restart, deleted. -/
def seatActs : List TableAct :=
  [.call .bookingSeats (.delete 1), .restart 2 fiveFds, .call .bookingSeats (.update 1 seatRecord),
    .call .bookingSeats (.insert (fun _ => 0) allocOk)]

theorem seatHistory : ∃ tr s, History TableHistory.step (.create 1 fiveFds) tr s ∧
    tr.map Transition.act = seatActs ∧ ∀ t ∈ tr, t.before.Orderly t.act := by
  have hcreated := @historyHolds_create 1 Nat.one_pos (by decide) _ fiveFds_injective
  have hinsert := @orderly_create 1 fiveFds .bookingSeats fun _ => 0
  obtain ⟨s₁, rs₁, hstep₁, -, hlogs₁, hholds₁⟩ := hcreated.call (by decide) hinsert
  have hone₁ : rs₁.length ≤ 1 := hlogs₁.length_le
  have hupdate : s₁.Orderly (.call .bookingSeats (.update 1 seatRecord)) :=
    show recordKey _ _ = 1 by decide
  obtain ⟨s₂, rs₂, hstep₂, -, hlogs₂, hholds₂⟩ := hholds₁.call (by rw [List.nil_append]; omega) hupdate
  have hone₂ : rs₂.length ≤ 1 := hlogs₂.length_le
  have hrestart : s₂.Orderly (.restart 2 fiveFds) := ⟨by decide, by decide, fiveFds_injective⟩
  have hroom : ([] ++ rs₁ ++ rs₂).length + 1 < 2 ^ 64 := by
    rw [List.nil_append, List.length_append]
    omega
  obtain ⟨store₃, hrun, hholds₃⟩ := hholds₂.restart hroom hrestart
  have hstep₃ : s₂.step (.restart 2 fiveFds) = some ⟨store₃, s₂.assigned⟩ := by
    rw [TableHistory.step, hrun]
    rfl
  have hdelete : (TableHistory.mk store₃ s₂.assigned).Orderly (.call .bookingSeats (.delete 1)) := trivial
  obtain ⟨s₄, -, hstep₄, -, -, -⟩ := hholds₃.call hroom hdelete
  refine ⟨_, s₄, (((History.nil.cons _ hstep₁).cons _ hstep₂).cons _ hstep₃).cons _ hstep₄, rfl, ?_⟩
  simp only [List.forall_mem_cons, List.not_mem_nil, false_implies, implies_true, and_true]
  exact ⟨hdelete, hrestart, hupdate, hinsert⟩

/-- A record is inserted, changed and deleted, with a restart between; then the server is restarted. -/
theorem orderly_restart_seat : ∃ tr s,
    History TableHistory.step (.create 1 fiveFds) tr s ∧ tr.map Transition.act = seatActs ∧
      ∃ store, s.store.restart 1 fiveFds = some store ∧
        (store.call (.bookingSeats, .find 1)).1 = (s.store.call (.bookingSeats, .find 1)).1 := by
  obtain ⟨tr, s, hist, hacts, horderly⟩ := seatHistory
  have hshort := congrArg List.length hacts
  rw [List.length_map] at hshort
  obtain ⟨-, hall⟩ := orderly_restart Nat.one_pos (by decide) fiveFds_injective hist horderly
    (by rw [hshort]; decide)
  obtain ⟨store, hopen, hanswers, -⟩ := hall 1 fiveFds Nat.one_pos (by decide) fiveFds_injective
  exact ⟨tr, s, hist, hacts, store, hopen, hanswers _ _ trivial⟩

/-- `table_update` does not look at the key of the new record; with key 0 in `booking_seats`, `table_open`
refuses the table. -/
theorem changed_key_stops_restart : ∃ tr s,
    History TableHistory.step (.create 1 fiveFds) tr s ∧
      tr.map Transition.act = [.call .bookingSeats (.update 1 fun _ => 0),
        .call .bookingSeats (.insert (fun _ => 0) allocOk)] ∧
      s.store.restart 1 fiveFds = none := by
  have hcreated := @historyHolds_create 1 Nat.one_pos (by decide) _ fiveFds_injective
  have hinsert := @orderly_create 1 fiveFds .bookingSeats fun _ => 0
  obtain ⟨s₁, rs, hstep₁, -, hlogs, hholds₁⟩ := hcreated.call (by decide) hinsert
  have hone : rs.length ≤ 1 := hlogs.length_le
  obtain ⟨n, hn, hn', hstore₁⟩ := hholds₁.store
  obtain ⟨store₂, hcall, hstore₂, -⟩ := hstore₁.call (c := (.bookingSeats, .update 1 fun _ => 0)) hn hn'
    (hholds₁.log.lsn (by rw [List.nil_append]; omega))
  obtain ⟨s₂, hstep₂, rfl⟩ : ∃ s₂, s₁.step (.call .bookingSeats (.update 1 fun _ => 0)) = some s₂ ∧
      store₂ = s₂.store := by
    rw [TableHistory.step, hcall]
    exact ⟨_, rfl, rfl⟩
  refine ⟨_, _, (History.nil.cons _ hstep₁).cons _ hstep₂, rfl, ?_⟩
  refine hstore₂.restart_fails (fun id hid => ?_) (by decide +kernel) Nat.one_pos (by decide)
    fiveFds_injective
  -- the other tables are empty
  have hempty : slotCallAll (slotCallAll (fun _ => OTable.empty 1)
      (.bookingSeats, .insert (fun _ => 0) allocOk)) (.bookingSeats, .update 1 fun _ => 0) id =
      OTable.empty 1 := by
    unfold slotCallAll
    rw [Function.update_of_ne hid, Function.update_of_ne hid]
  rw [hempty]
  exact ⟨fun _ hr => absurd hr List.not_mem_nil, rfl⟩

end Ticketing
