import Ticketing.Core.StoredEngine
import Ticketing.Lib.RelatedTables
import Ticketing.Storage.LogPrefix

/-!
# A call over the tables on disk and over ordered tables

`BookingEngine` runs the calls over four ordered tables of records, `StoredEngine` over index, buffer pool,
pages and log, on bytes.

* `StoreShows`, `TableStore.Ready` — the lists of live records in the store, and room for one more call.
* `DbShows` — the records in the pages show the tables of the engine.
* `SiteShows`, `StepShows`, `PcShows`, `ProcShows` — a call stands at the same point, with the same records
  in its hands.
* `find_alike`, `insert_alike`, `update_alike` — the table calls of the two.
* `storedTableStep_alike` — a table call of the engine and what the call does with the answer.
-/

set_option autoImplicit false

namespace Ticketing

/-! ## Tables -/

/-- The lists are the live records of a store that calls and restarts have led to, its log gives them, and its
indexes have room for more keys. -/
structure StoreShows (s : TableStore) (L : TableId → OTable Bytes) : Prop where
  indexes : ∀ id, ∃ m, BTreeInv BTREE_DEFAULT_ORDER (s.index id) m
  recorded : ∃ recs T, recs.length + 1 < 2 ^ 64 ∧ HistoryHolds recs ⟨s, fun _ => []⟩ T ∧ Determines recs T ∧
    ∀ id, L id = liveRows id (T id)

/-- The tables on disk hold the records of the engine. -/
structure DbShows (L : TableId → OTable Bytes) (db : Db) : Prop where
  events : (L .events).Related EventShows db.events
  seats : (L .seats).Related SeatShows db.seats
  bookings : (L .bookings).Related BookingShows db.bookings
  bookingSeats : (L .bookingSeats).Related BookingSeatShows db.bookingSeats

/-- The log with one record more, or none: cut before its end it gives what it gave before. -/
structure Wal.Grew (wal wal' : Wal) : Prop where
  lsn : wal'.nextLsn.toNat ≤ wal.nextLsn.toNat + 1
  length : wal.file.length ≤ wal'.file.length
  cut : ∀ k, k < wal'.file.length → recoveredData (wal'.file.take k) = recoveredData (wal.file.take k)

/-- At most one id of every table and one record of the log further. -/
structure TableStore.Grew (s s' : TableStore) : Prop where
  ids : ∀ id, s'.nextId id ≤ s.nextId id + 1
  log : s.wal.Grew s'.wal

/-- Room for one more call. -/
structure TableStore.Ready (s : TableStore) (L : TableId → OTable Bytes) : Prop where
  shows : StoreShows s L
  room : s.HasRoom 1

/-- The store after a call. -/
structure Served (s s' : TableStore) (L : TableId → OTable Bytes) : Prop extends TableStore.Grew s s' where
  shows : StoreShows s' L

section Tables

variable {s : TableStore} {L : TableId → OTable Bytes}

/-- The ids that were handed out are no matter of the store. -/
theorem HistoryHolds.forget {recs : List WalRecord} {h : TableHistory} {T : TableId → OTable Bytes}
    (hholds : HistoryHolds recs h T) : HistoryHolds recs ⟨h.store, fun _ => []⟩ T :=
  ⟨hholds.store, hholds.stamped, hholds.dense, hholds.log,
    fun _ => ⟨List.Pairwise.nil, fun _ ha => absurd ha List.not_mem_nil⟩⟩

theorem StoreShows.nextId (h : StoreShows s L) (id : TableId) : s.nextId id = (L id).nextId := by
  obtain ⟨recs, T, -, hholds, -, hT⟩ := h.recorded
  obtain ⟨n, -, -, hstore⟩ := hholds.store
  rw [(hstore.next id).1, hT]
  rfl

/-- Every record has its id in its key field. -/
theorem StoreShows.key (h : StoreShows s L) {id : TableId} {key : Nat} {b : Bytes} (hb : (L id).get? key = some b) :
    (keyField id).get b = key := by
  obtain ⟨recs, T, -, hholds, -, hT⟩ := h.recorded
  rw [hT id] at hb
  exact hholds.stamped id _ (OTable.mem_iff.mpr (get?_liveRows.mp hb).1)

theorem LogHolds.toNat {recs : List WalRecord} {wal : Wal} (h : LogHolds recs wal)
    (hlen : recs.length + 1 < 2 ^ 64) : wal.nextLsn.toNat = recs.length + 1 := by
  rw [h.nextLsn, UInt64.toNat_add, UInt64.toNat_ofNat']
  have hone : (1 : UInt64).toNat = 1 := rfl
  omega

/-- One record more in the log, or none. -/
theorem LogHolds.grew {recs rs : List WalRecord} {wal wal' : Wal} (h : LogHolds recs wal)
    (h' : LogHolds (recs ++ rs) wal') (hrs : rs.length ≤ 1) (hlen : recs.length + 1 < 2 ^ 64)
    (hroom : wal.nextLsn.toNat + 1 < 2 ^ 64) : (recs ++ rs).length + 1 < 2 ^ 64 ∧ wal.Grew wal' := by
  rw [h.toNat hlen] at hroom
  have hlen' : (recs ++ rs).length + 1 < 2 ^ 64 := by
    rw [List.length_append]
    omega
  refine ⟨hlen', ?_, ?_, fun k hk => h.cut h' hrs hlen' hk⟩
  · rw [h.toNat hlen, h'.toNat hlen', List.length_append]
    omega
  · rw [h.file, h'.file, encodeAll_append, List.length_append]
    exact Nat.le_add_right _ _

/-- **A call of the table layer** that the engine makes. -/
theorem TableStore.Ready.call (h : s.Ready L) {id : TableId} {c : RowCall} (hc : CallFits L (id, c))
    (hkeep : ∀ key record, c = .update key record → recordKey id (record.bytes (etpRecordSize id)) = key) :
    ∃ s', s.call (id, c) = (.ok (specCall id (L id) c).1, s') ∧
      Served s s' (Function.update L id (specCall id (L id) c).2) := by
  obtain ⟨recs, T, hlen, hholds, hdet, hT⟩ := h.shows.recorded
  obtain ⟨n, hn, hn', hstore⟩ := hholds.store
  have horderly : (TableHistory.mk s fun _ => []).Orderly (.call id c) := by
    cases c with
    | insert record alloc =>
      obtain ⟨rfl, -, -⟩ := hc.1
      obtain ⟨m, hinv⟩ := h.shows.indexes id
      exact ⟨h.room.1 id, hinv.hasRoom (by decide) _⟩
    | update key record => exact hkeep key record rfl
    | find key => trivial
    | delete key => trivial
    | scan filter max => trivial
    | count => trivial
  obtain ⟨s', rs, hstep, hresult, hlogs, hholds'⟩ := hholds.call hlen horderly
  have hstore' : s'.store = (s.call (id, c)).2 := by
    rw [TableHistory.step] at hstep
    dsimp only at hstep hresult
    generalize s.call (id, c) = r at hstep hresult ⊢
    obtain ⟨r, store⟩ := r
    dsimp only at hresult
    subst hresult
    exact (congrArg TableHistory.store (Option.some.inj hstep)).symm
  obtain ⟨s₁, hcall, -, hcalled⟩ := hstore.call (c := (id, c)) hn hn' (hholds.ready hlen horderly)
  have hsame : s'.store = s₁ := hstore'.trans (congrArg Prod.snd hcall)
  obtain ⟨hlen', hlog⟩ := hholds.log.grew hholds'.log hlogs.length_le hlen h.room.2
  have hcount : c = .count → (L id).rows.length < 2 ^ 31 := fun heq => by
    subst heq
    exact hc.2
  refine ⟨s'.store, Prod.ext (hresult.trans (congrArg Except.ok (slotCall_result (hT id) hcount))) hstore'.symm,
    ⟨fun id' => ?_, hlog⟩, hsame ▸ hcalled.indexes hc.1.alloc h.shows.indexes, recs ++ rs, _, hlen', hholds'.forget,
    hdet.call hlogs hc.1.unmarked (hstore.lengths id) (hstore.next id).2, fun id' => ?_⟩
  · obtain ⟨n', -, -, hstored⟩ := hholds'.store
    rw [(hstored.next id').1, (hstore.next id').1]
    unfold slotCallAll
    dsimp only
    rcases eq_or_ne id' id with rfl | hne
    · rw [Function.update_self]
      rcases @slotCall_id id' (T id') c with ⟨-, hsame⟩ | ⟨-, hmore⟩ <;> omega
    · rw [Function.update_of_ne hne]
      exact Nat.le_succ _
  · unfold slotCallAll
    dsimp only
    rcases eq_or_ne id' id with rfl | hne
    · rw [Function.update_self, Function.update_self]
      exact (liveRows_slotCall hT hc.1.unmarked (hstore.lengths id')).symm
    · rw [Function.update_of_ne hne, Function.update_of_ne hne]
      exact hT id'

theorem storeFind_ready (h : s.Ready L) (id : TableId) (key : Nat) : ∃ s',
    storeFind s id key = some (s', ((L id).get? key).elim (.error .errNotFound) .ok) ∧ Served s s' L := by
  obtain ⟨s', hcall, hserved⟩ := @TableStore.Ready.call s L h id (.find key) ⟨trivial, trivial⟩ (fun _ _ h => nomatch h)
  refine ⟨s', ?_, ?_⟩
  · unfold storeFind
    rw [hcall]
    rfl
  · have hsame : Function.update L id (L id) = L := Function.update_eq_self id L
    rwa [show (specCall id (L id) (.find key)).2 = L id from rfl, hsame] at hserved

theorem storeInsert_ready (h : s.Ready L) {id : TableId} {b : Bytes} (hb : LiveRecord id b) : ∃ s',
    storeInsert s id b = some (s', .ok (L id).nextId) ∧
      Served s s' (Function.update L id ((L id).insert ((keyField id).set (L id).nextId b))) := by
  have hids : (L id).nextId + 1 < 2 ^ 32 := h.shows.nextId id ▸ h.room.1 id
  obtain ⟨s', hcall, hserved⟩ := @TableStore.Ready.call s L h id (.insert (recordAt b 0) allocOk)
    ⟨⟨rfl, hb.flag, hids⟩, trivial⟩ (fun _ _ h => nomatch h)
  refine ⟨s', ?_, ?_⟩
  · unfold storeInsert
    rw [hcall]
    rfl
  · rwa [show (specCall id (L id) (.insert (recordAt b 0) allocOk)).2 =
      (L id).insert (storedRecord id (L id).nextId (recordAt b 0)) from rfl, hb.stored] at hserved

theorem storeUpdate_ready (h : s.Ready L) {id : TableId} {b : Bytes} (hb : LiveRecord id b) {key : Nat}
    (hkey : (keyField id).get b = key) : ∃ s',
    storeUpdate s id key b = some (s', ((L id).get? key).elim (.error .errNotFound) fun _ => .ok ()) ∧
      Served s s' (((L id).get? key).elim L fun _ => Function.update L id ((L id).update key b)) := by
  obtain ⟨s', hcall, hserved⟩ := @TableStore.Ready.call s L h id (.update key (recordAt b 0)) ⟨hb.flag, trivial⟩
    (fun key' record heq => by
      cases heq
      rw [hb.bytes]
      exact hkey)
  refine ⟨s', ?_, ?_⟩
  · unfold storeUpdate
    rw [hcall]
    dsimp only [specCall]
    cases (L id).get? key <;> rfl
  · dsimp only [specCall] at hserved
    rw [hb.bytes] at hserved
    cases hget : (L id).get? key with
    | none =>
      rw [hget] at hserved
      have hsame : Function.update L id (L id) = L := Function.update_eq_self id L
      rwa [Option.elim, hsame] at hserved
    | some a =>
      rw [hget] at hserved
      exact hserved

theorem storeScan_ready (h : s.Ready L) (id : TableId) (filter : Bytes → Bool) (max : Nat) : ∃ s',
    storeScan s id filter max = some (s', ((L id).scan filter max).map Prod.snd) ∧ Served s s' L := by
  obtain ⟨s', hcall, hserved⟩ := @TableStore.Ready.call s L h id (.scan filter max) ⟨trivial, trivial⟩
    (fun _ _ h => nomatch h)
  refine ⟨s', ?_, ?_⟩
  · unfold storeScan
    rw [hcall]
    rfl
  · have hsame : Function.update L id (L id) = L := Function.update_eq_self id L
    rwa [show (specCall id (L id) (.scan filter max)).2 = L id from rfl, hsame] at hserved

end Tables

/-! ## One table changed -/

section Db

variable {L : TableId → OTable Bytes} {db : Db}

theorem DbShows.withSeats (h : DbShows L db) {X : OTable Bytes} {T : OTable SeatRecord}
    (hX : X.Related SeatShows T) : DbShows (Function.update L .seats X) { db with seats := T } := by
  refine ⟨?_, ?_, ?_, ?_⟩
  · rw [Function.update_of_ne (by decide)]
    exact h.events
  · rw [Function.update_self]
    exact hX
  · rw [Function.update_of_ne (by decide)]
    exact h.bookings
  · rw [Function.update_of_ne (by decide)]
    exact h.bookingSeats

theorem DbShows.withBookings (h : DbShows L db) {X : OTable Bytes} {T : OTable BookingRecord}
    (hX : X.Related BookingShows T) : DbShows (Function.update L .bookings X) { db with bookings := T } := by
  refine ⟨?_, ?_, ?_, ?_⟩
  · rw [Function.update_of_ne (by decide)]
    exact h.events
  · rw [Function.update_of_ne (by decide)]
    exact h.seats
  · rw [Function.update_self]
    exact hX
  · rw [Function.update_of_ne (by decide)]
    exact h.bookingSeats

theorem DbShows.withBookingSeats (h : DbShows L db) {X : OTable Bytes} {T : OTable BookingSeatRecord}
    (hX : X.Related BookingSeatShows T) :
    DbShows (Function.update L .bookingSeats X) { db with bookingSeats := T } := by
  refine ⟨?_, ?_, ?_, ?_⟩
  · rw [Function.update_of_ne (by decide)]
    exact h.events
  · rw [Function.update_of_ne (by decide)]
    exact h.seats
  · rw [Function.update_of_ne (by decide)]
    exact h.bookings
  · rw [Function.update_self]
    exact hX

end Db

/-! ## Calls in progress -/

/-- The bytes show the record and have the key. -/
def Keyed {α : Type} (id : TableId) (R : Bytes → α → Prop) (key : Nat) (b : Bytes) (a : α) : Prop :=
  R b a ∧ (keyField id).get b = key

section Progress

variable (c : Call)

inductive SiteShows : StoredSite → LockSite → Prop where
  | bookSeat {e : Bytes} {evt : EventRecord} (h : EventShows e evt) (i : Nat) :
      SiteShows (.bookSeat e i) (.bookSeat evt i)
  | cancelBooking : SiteShows .cancelBooking .cancelBooking
  | cancelSeat {b : Bytes} {booking : BookingRecord} {bs : List Bytes} {rows : List BookingSeatRecord}
      (h : Keyed .bookings BookingShows c.bookingId b booking) (hrows : List.Forall₂ BookingSeatShows bs rows)
      (i : Nat) : SiteShows (.cancelSeat b bs i) (.cancelSeat booking rows i)

inductive StepShows : StoredTableStep → TableStep → Prop where
  | bookVerify {e : Bytes} {evt : EventRecord} (h : EventShows e evt) (i : Nat) :
      StepShows (.bookVerify e i) (.bookVerify evt i)
  | bookInsert {e : Bytes} {evt : EventRecord} (h : EventShows e evt) : StepShows (.bookInsert e) (.bookInsert evt)
  | bookJunction {bookingId : Nat} (hid : bookingId < 2 ^ 32) (i : Nat) :
      StepShows (.bookJunction bookingId i) (.bookJunction bookingId i)
  | bookFindSeat {bookingId : Nat} (hid : bookingId < 2 ^ 32) (i : Nat) :
      StepShows (.bookFindSeat bookingId i) (.bookFindSeat bookingId i)
  | bookUpdateSeat {bookingId : Nat} (hid : bookingId < 2 ^ 32) (i : Nat) {b : Bytes} {seat : SeatRecord}
      (h : Keyed .seats SeatShows (c.seats.getD i 0) b seat) :
      StepShows (.bookUpdateSeat bookingId i b) (.bookUpdateSeat bookingId i seat)
  | cancelFind : StepShows .cancelFind .cancelFind
  | cancelScan {b : Bytes} {booking : BookingRecord} (h : Keyed .bookings BookingShows c.bookingId b booking) :
      StepShows (.cancelScan b) (.cancelScan booking)
  | cancelFindSeat {b : Bytes} {booking : BookingRecord} {bs : List Bytes} {rows : List BookingSeatRecord}
      (h : Keyed .bookings BookingShows c.bookingId b booking) (hrows : List.Forall₂ BookingSeatShows bs rows)
      (i : Nat) : StepShows (.cancelFindSeat b bs i) (.cancelFindSeat booking rows i)
  | cancelUpdateSeat {b : Bytes} {booking : BookingRecord} {bs : List Bytes} {rows : List BookingSeatRecord}
      (h : Keyed .bookings BookingShows c.bookingId b booking) (hrows : List.Forall₂ BookingSeatShows bs rows)
      (i : Nat) {a : Bytes} {seat : SeatRecord}
      (hseat : Keyed .seats SeatShows ((rows.map BookingSeatRecord.seatId).getD i 0) a seat) :
      StepShows (.cancelUpdateSeat b bs i a) (.cancelUpdateSeat booking rows i seat)
  | cancelUpdateBooking {b : Bytes} {booking : BookingRecord} {bs : List Bytes} {rows : List BookingSeatRecord}
      (h : Keyed .bookings BookingShows c.bookingId b booking) (hrows : List.Forall₂ BookingSeatShows bs rows) :
      StepShows (.cancelUpdateBooking b bs) (.cancelUpdateBooking booking rows)

inductive PcShows : StoredPc → Pc → Prop where
  | bookStart : PcShows .bookStart .bookStart
  | begin {e : Option Bytes} {evt : Option EventRecord} (h : Option.Rel EventShows e evt) :
      PcShows (.begin e) (.begin evt)
  | lock (stage : LockStage) (txn : UInt32) {site' : StoredSite} {site : LockSite} (h : SiteShows c site' site) :
      PcShows (.lock stage txn site') (.lock stage txn site)
  | table (txn : UInt32) {ts' : StoredTableStep} {ts : TableStep} (h : StepShows c ts' ts) :
      PcShows (.table txn ts') (.table txn ts)
  | commit (txn : UInt32) (out : Option Nat) : PcShows (.commit txn out) (.commit txn out)
  | abort (txn : UInt32) (rc : EtpResult) : PcShows (.abort txn rc) (.abort txn rc)
  | orphan (txn : UInt32) (key : LockKey) : PcShows (.orphan txn key) (.orphan txn key)
  | release (locks : List LockKey) (rc : EtpResult) (out : Option Nat) :
      PcShows (.release locks rc out) (.release locks rc out)

/-- Where control goes; past the checks of its arguments a call has few seats. -/
inductive NextShows : StoredNext → Next → Prop where
  | goto {pc' : StoredPc} {pc : Pc} (hlen : c.seatIds.length ≤ MAX_SEATS_PER_BOOKING) (h : PcShows c pc' pc) :
      NextShows (.goto pc') (.goto pc)
  | ret (rc : EtpResult) (out : Option Nat) : NextShows (.ret rc out) (.ret rc out)

end Progress

inductive ProcShows : StoredProc → Proc → Prop where
  | idle : ProcShows .idle .idle
  | running {c : Call} (hc : c.Fits) {pc' : StoredPc} {pc : Pc}
      (hlen : pc' = .bookStart ∨ c.seatIds.length ≤ MAX_SEATS_PER_BOOKING) (h : PcShows c pc' pc) :
      ProcShows (.running c pc') (.running c pc)
  | done (c : Call) (rc : EtpResult) (out : Option Nat) : ProcShows (.done c rc out) (.done c rc out)

section Loops

variable {c : Call} {txn : UInt32}

theorem seatIds_of_related {bs : List Bytes} {rows : List BookingSeatRecord}
    (h : List.Forall₂ BookingSeatShows bs rows) :
    bs.map BookingSeatLayout.seatId.get = rows.map BookingSeatRecord.seatId :=
  map_eq_of_related (fun _ _ hr => hr.seatId) h

theorem SiteShows.key {site' : StoredSite} {site : LockSite} (h : SiteShows c site' site) :
    site'.key c = lockKey c site := by
  cases h with
  | bookSeat h i => rfl
  | cancelBooking => rfl
  | cancelSeat h hrows i => rw [StoredSite.key, lockKey, seatIds_of_related hrows]

theorem pcShows_verifyLoop {e : Bytes} {evt : EventRecord} (h : EventShows e evt) (i : Nat) :
    PcShows c (storedVerifyLoop c e txn i) (bookVerifyLoop c evt txn i) := by
  unfold storedVerifyLoop bookVerifyLoop
  split
  · exact .table txn (.bookVerify h i)
  · exact .table txn (.bookInsert h)

theorem pcShows_lockLoop {e : Bytes} {evt : EventRecord} (h : EventShows e evt) (i : Nat) :
    PcShows c (storedLockLoop c e txn i) (bookLockLoop c evt txn i) := by
  unfold storedLockLoop bookLockLoop
  split
  · exact .lock .check txn (.bookSeat h i)
  · exact pcShows_verifyLoop h 0

theorem pcShows_seatLoop {bookingId : Nat} (hid : bookingId < 2 ^ 32) (i : Nat) :
    PcShows c (storedSeatLoop c txn bookingId i) (bookSeatLoop c txn bookingId i) := by
  unfold storedSeatLoop bookSeatLoop
  split
  · exact .table txn (.bookJunction hid i)
  · exact .commit txn (some bookingId)

theorem pcShows_cancelLoop {b : Bytes} {booking : BookingRecord} {bs : List Bytes}
    {rows : List BookingSeatRecord} (h : Keyed .bookings BookingShows c.bookingId b booking)
    (hrows : List.Forall₂ BookingSeatShows bs rows) (i : Nat) :
    PcShows c (storedCancelLoop txn b bs i) (cancelSeatLoop txn booking rows i) := by
  unfold storedCancelLoop cancelSeatLoop
  rw [hrows.length_eq]
  split
  · exact .lock .check txn (.cancelSeat h hrows i)
  · exact .table txn (.cancelUpdateBooking h hrows)

theorem pcShows_afterLock {site' : StoredSite} {site : LockSite} (h : SiteShows c site' site) :
    PcShows c (storedAfterLock c txn site') (afterLock c txn site) := by
  cases h with
  | bookSeat h i => exact pcShows_lockLoop h (i + 1)
  | cancelBooking => exact .table txn .cancelFind
  | cancelSeat h hrows i => exact .table txn (.cancelFindSeat h hrows i)

theorem pcShows_afterBegin {e : Option Bytes} {evt : Option EventRecord} (h : Option.Rel EventShows e evt) :
    PcShows c (storedAfterBegin c txn e) (afterBegin c txn evt) := by
  cases h with
  | some h => exact pcShows_lockLoop h 0
  | none => exact .lock .check txn .cancelBooking

theorem Call.Fits.seat (h : c.Fits) (i : Nat) : c.seats.getD i 0 < 2 ^ 32 := by
  rw [List.getD_eq_getElem?_getD]
  cases hseat : c.seats[i]? with
  | none => decide
  | some seat => exact h.2.2.2 seat ((exchangeSort_perm _ _).subset (List.mem_of_getElem? hseat))

theorem Call.length_seats (c : Call) : c.seats.length = c.seatIds.length := (exchangeSort_perm _ _).length_eq

end Loops

/-! ## Table calls side by side -/

section Calls

variable {s : TableStore} {L : TableId → OTable Bytes} {db : Db} {env : Env} {α : Type} {R : Bytes → α → Prop}
  {id : TableId} {T : OTable α}

theorem find_alike (h : s.Ready L) (henv : env.storage = .ok) (hT : (L id).Related R T) (key : Nat) :
    (∃ s', storeFind s id key = some (s', .error .errNotFound) ∧
      tableFindById T key db env = some (db, .error .errNotFound) ∧ Served s s' L) ∨
    ∃ s' b a, storeFind s id key = some (s', .ok b) ∧ tableFindById T key db env = some (db, .ok a) ∧
      Keyed id R key b a ∧ Served s s' L := by
  obtain ⟨s', hfind, hserved⟩ := storeFind_ready h id key
  have hrows := hT.get? key
  have hkey := @StoreShows.key s L h.shows id key
  unfold tableFindById
  rw [hfind, henv]
  generalize (L id).get? key = x at hrows hkey ⊢
  generalize T.get? key = y at hrows ⊢
  cases hrows with
  | none => exact Or.inl ⟨s', rfl, rfl, hserved⟩
  | some hab => exact Or.inr ⟨s', _, _, rfl, rfl, ⟨hab, hkey rfl⟩, hserved⟩

theorem insert_alike (h : s.Ready L) (henv : env.storage = .ok) (hT : (L id).Related R T) {b : Bytes}
    (hb : LiveRecord id b) (a : α) (store : OTable α → Db) : ∃ s',
    storeInsert s id b = some (s', .ok T.nextId) ∧ T.nextId < 2 ^ 32 ∧
      tableInsert T store a env = some (store (T.insert a), .ok T.nextId) ∧
      Served s s' (Function.update L id ((L id).insert ((keyField id).set T.nextId b))) := by
  obtain ⟨s', hinsert, hserved⟩ := storeInsert_ready h hb
  have hids : T.nextId + 1 < 2 ^ 32 := by
    rw [← hT.nextId, ← h.shows.nextId id]
    exact h.room.1 id
  have hlt : T.nextId < 2 ^ 32 := by omega
  rw [hT.nextId] at hinsert hserved
  refine ⟨s', hinsert, hlt, ?_, hserved⟩
  unfold tableInsert
  rw [henv]
  exact if_pos hlt

theorem update_alike (h : s.Ready L) (henv : env.storage = .ok) (hT : (L id).Related R T) {b : Bytes}
    (hb : LiveRecord id b) {key : Nat} (hkey : (keyField id).get b = key) (a : α) (store : OTable α → Db) :
    (∃ s', storeUpdate s id key b = some (s', .error .errNotFound) ∧
      tableUpdate T store key a db env = some (db, .error .errNotFound) ∧ Served s s' L) ∨
    ∃ s', storeUpdate s id key b = some (s', .ok ()) ∧
      tableUpdate T store key a db env = some (store (T.update key a), .ok ()) ∧
      Served s s' (Function.update L id ((L id).update key b)) := by
  obtain ⟨s', hupdate, hserved⟩ := storeUpdate_ready h hb hkey
  have hrows := hT.get? key
  unfold tableUpdate
  rw [hupdate, henv]
  generalize (L id).get? key = x at hrows hserved ⊢
  generalize T.get? key = y at hrows ⊢
  cases hrows with
  | none => exact Or.inl ⟨s', rfl, rfl, hserved⟩
  | some hab => exact Or.inr ⟨s', rfl, rfl, hserved⟩

end Calls

/-! ## One step of a call -/

/-- The tables on disk show the database, and the calls go on at the same point. -/
def TablesAlike (s : TableStore) (c : Call) (r' : TableStore × StoredPc) (r : Db × Pc) : Prop :=
  (∃ L, Served s r'.1 L ∧ DbShows L r.1) ∧ PcShows c r'.2 r.2

section Steps

variable {s : TableStore} {L : TableId → OTable Bytes} {db : Db} {env : Env} {c : Call} {txn : UInt32}

/-- **One table call** of the engine, over the pages and over ordered tables. -/
theorem storedTableStep_alike (h : s.Ready L) (henv : env.storage = .ok) (hdb : DbShows L db) (hc : c.Fits)
    (hlen : c.seatIds.length ≤ MAX_SEATS_PER_BOOKING) (hlow : -(2 ^ 63) ≤ env.now) (hhigh : env.now < 2 ^ 63)
    {ts' : StoredTableStep} {ts : TableStep} (hts : StepShows c ts' ts) :
    Option.Rel (TablesAlike s c) (storedTableStep c env.now s txn ts') (tableStep c env db txn ts) := by
  have hseats : c.seats.length < 2 ^ 16 := by
    rw [c.length_seats]
    exact Nat.lt_of_le_of_lt hlen (by decide)
  cases hts with
  | @bookVerify e evt he i =>
    rw [storedTableStep, tableStep]
    rcases @find_alike s L db env _ _ _ _ h henv hdb.seats (c.seats.getD i 0) with
      ⟨s', hs, hd, hserved⟩ | ⟨s', b, seat, hs, hd, ⟨hseat, -⟩, hserved⟩
    · rw [hs, hd]
      exact .some ⟨⟨L, hserved, hdb⟩, .abort txn .errNotFound⟩
    · rw [hs, hd]
      refine .some ⟨⟨L, hserved, hdb⟩, ?_⟩
      dsimp only
      rw [hseat.eventId, hseat.status]
      split
      · exact .abort txn .errInvalidArg
      · by_cases havail : seat.status = .available
        · rw [if_neg (not_not.mpr (congrArg _ havail)), if_neg (not_not.mpr havail)]
          exact pcShows_verifyLoop he (i + 1)
        · rw [if_pos (fun hcode => havail (SeatStatus.code_injective hcode)), if_pos havail]
          exact .abort txn .errSeatUnavail
  | @bookInsert e evt he =>
    have hbooking := bookingShows_new he hlow hhigh hc.1 hc.2.1 hseats
    obtain ⟨s', hs, hlt, hd, hserved⟩ := insert_alike h henv hdb.bookings hbooking.toLiveRecord
      { userId := c.userId, eventId := c.eventId, seatCount := c.seats.length,
        totalAmount := evt.price * Float32.ofNat c.seats.length, status := .confirmed, bookedAt := env.now }
      (fun t => { db with bookings := t })
    rw [storedTableStep, tableStep, hs, hd]
    exact .some ⟨⟨_, hserved, hdb.withBookings (hdb.bookings.insert (hbooking.keyed _))⟩, pcShows_seatLoop hlt 0⟩
  | @bookJunction bookingId hid i =>
    have hjunction := bookingSeatShows_new hid (hc.seat i)
    obtain ⟨s', hs, hlt, hd, hserved⟩ := insert_alike h henv hdb.bookingSeats hjunction.toLiveRecord
      ⟨bookingId, c.seats.getD i 0⟩ (fun t => { db with bookingSeats := t })
    rw [storedTableStep, tableStep, hs, hd]
    exact .some ⟨⟨_, hserved, hdb.withBookingSeats (hdb.bookingSeats.insert (hjunction.keyed _))⟩,
      .table txn (.bookFindSeat hid i)⟩
  | @bookFindSeat bookingId hid i =>
    rw [storedTableStep, tableStep]
    rcases @find_alike s L db env _ _ _ _ h henv hdb.seats (c.seats.getD i 0) with
      ⟨s', hs, hd, hserved⟩ | ⟨s', b, seat, hs, hd, hseat, hserved⟩
    · rw [hs, hd]
      exact .some ⟨⟨L, hserved, hdb⟩, .abort txn .errNotFound⟩
    · rw [hs, hd]
      exact .some ⟨⟨L, hserved, hdb⟩, .table txn (.bookUpdateSeat hid i hseat)⟩
  | @bookUpdateSeat bookingId hid i b seat hseat =>
    have hbooked := @SeatShows.assign b seat hseat.1 .booked _ hc.1
    rw [storedTableStep, tableStep]
    rcases @update_alike s L db env _ _ _ _ h henv hdb.seats _ hbooked.toLiveRecord (c.seats.getD i 0)
      (hseat.1.assign_key.trans hseat.2) { seat with status := .booked, bookedBy := c.userId }
      (fun t => { db with seats := t }) with ⟨s', hs, hd, hserved⟩ | ⟨s', hs, hd, hserved⟩
    · rw [bookedSeat, hs, hd]
      exact .some ⟨⟨L, hserved, hdb⟩, .abort txn .errNotFound⟩
    · rw [bookedSeat, hs, hd]
      exact .some ⟨⟨_, hserved, hdb.withSeats (hdb.seats.update _ hbooked)⟩, pcShows_seatLoop hid (i + 1)⟩
  | cancelFind =>
    rw [storedTableStep, tableStep]
    rcases @find_alike s L db env _ _ _ _ h henv hdb.bookings c.bookingId with
      ⟨s', hs, hd, hserved⟩ | ⟨s', b, booking, hs, hd, hbooking, hserved⟩
    · rw [hs, hd]
      exact .some ⟨⟨L, hserved, hdb⟩, .abort txn .errNotFound⟩
    · rw [hs, hd]
      refine .some ⟨⟨L, hserved, hdb⟩, ?_⟩
      dsimp only
      rw [hbooking.1.userId, hbooking.1.status]
      split
      · exact .abort txn .errAuth
      · by_cases hconf : booking.status = .confirmed
        · rw [if_neg (not_not.mpr (congrArg _ hconf)), if_neg (not_not.mpr hconf)]
          exact .table txn (.cancelScan hbooking)
        · rw [if_pos (fun hcode => hconf (BookingStatus.code_injective hcode)), if_pos hconf]
          exact .abort txn .errGeneric
  | @cancelScan b booking hbooking =>
    obtain ⟨s', hs, hserved⟩ := storeScan_ready h .bookingSeats
      (fun r => BookingSeatLayout.bookingId.get r == c.bookingId) MAX_SEATS_PER_BOOKING
    have hrows := hdb.bookingSeats.scan (p := fun r => BookingSeatLayout.bookingId.get r == c.bookingId)
      (q := fun r => r.bookingId == c.bookingId) (fun a r hr => by rw [hr.bookingId]) MAX_SEATS_PER_BOOKING
    rw [storedTableStep, tableStep, hs]
    unfold tableScan
    rw [henv]
    exact .some ⟨⟨L, hserved, hdb⟩,
      pcShows_cancelLoop hbooking (exchangeSort_related (fun _ _ hr => hr.seatId) hrows) 0⟩
  | @cancelFindSeat b booking bs rows hbooking hrows i =>
    rw [storedTableStep, tableStep, seatIds_of_related hrows]
    rcases @find_alike s L db env _ _ _ _ h henv hdb.seats ((rows.map BookingSeatRecord.seatId).getD i 0) with
      ⟨s', hs, hd, hserved⟩ | ⟨s', a, seat, hs, hd, hseat, hserved⟩
    · rw [hs, hd]
      exact .some ⟨⟨L, hserved, hdb⟩, pcShows_cancelLoop hbooking hrows (i + 1)⟩
    · rw [hs, hd]
      exact .some ⟨⟨L, hserved, hdb⟩, .table txn (.cancelUpdateSeat hbooking hrows i hseat)⟩
  | @cancelUpdateSeat b booking bs rows hbooking hrows i a seat hseat =>
    have hfreed := @SeatShows.assign a seat hseat.1 .available 0 (by decide)
    rw [storedTableStep, tableStep, seatIds_of_related hrows]
    rcases @update_alike s L db env _ _ _ _ h henv hdb.seats _ hfreed.toLiveRecord
      ((rows.map BookingSeatRecord.seatId).getD i 0) (hseat.1.assign_key.trans hseat.2)
      { seat with status := .available, bookedBy := 0 } (fun t => { db with seats := t }) with
      ⟨s', hs, hd, hserved⟩ | ⟨s', hs, hd, hserved⟩
    · rw [freedSeat, hs, hd]
      exact .some ⟨⟨L, hserved, hdb⟩, .abort txn .errIo⟩
    · rw [freedSeat, hs, hd]
      exact .some ⟨⟨_, hserved, hdb.withSeats (hdb.seats.update _ hfreed)⟩,
        pcShows_cancelLoop hbooking hrows (i + 1)⟩
  | @cancelUpdateBooking b booking bs rows hbooking hrows =>
    have hcancelled := hbooking.1.cancel
    rw [storedTableStep, tableStep]
    rcases @update_alike s L db env _ _ _ _ h henv hdb.bookings _ hcancelled.toLiveRecord c.bookingId
      (hbooking.1.cancel_key.trans hbooking.2) { booking with status := .cancelled }
      (fun t => { db with bookings := t }) with ⟨s', hs, hd, hserved⟩ | ⟨s', hs, hd, hserved⟩
    · rw [hs, hd]
      exact .some ⟨⟨L, hserved, hdb⟩, .abort txn .errIo⟩
    · rw [hs, hd]
      exact .some ⟨⟨_, hserved, hdb.withBookings (hdb.bookings.update _ hcancelled)⟩, .commit txn none⟩

end Steps

end Ticketing
