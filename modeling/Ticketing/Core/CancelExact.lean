import Ticketing.Core.CallReturns

/-!
# What a cancellation does

`booking_cancel` from a state in which no lock is held and a transaction slot is free.

* `cancelRows`, `cancelledDb` — the junction records it finds, and the tables it leaves.
* `CancelEnd`, `cancel_returns` — the only ways such a call ends, whatever memory does.
-/

set_option autoImplicit false

namespace Ticketing

/-! ## The tables of a cancellation -/

/-- The record of a seat given back. -/
def freeSeat (seat : SeatRecord) : SeatRecord := { seat with status := .available, bookedBy := 0 }

/-- The junction records a cancellation finds, in the order in which it takes their seats. -/
def cancelRows (db : Db) (b : Nat) : List BookingSeatRecord :=
  exchangeSort BookingSeatRecord.seatId
    ((db.bookingSeats.scan (fun r => r.bookingId == b) MAX_SEATS_PER_BOOKING).map Prod.snd)

/-- Their seats. -/
def cancelSeats (db : Db) (b : Nat) : List Nat := (cancelRows db b).map BookingSeatRecord.seatId

/-- The tables with `i` seats given back. -/
def releasedDb (db : Db) (b i : Nat) : Db :=
  { db with seats := db.seats.modifyAll freeSeat ((cancelSeats db b).take i) }

/-- The tables after the cancellation. -/
def cancelledDb (db : Db) (b : Nat) (booking : BookingRecord) : Db :=
  { db with
    seats := db.seats.modifyAll freeSeat (cancelSeats db b)
    bookings := db.bookings.update b { booking with status := .cancelled } }

/-- What `booking_cancel` returns when it runs alone. -/
def cancelResult (db : Db) (b user : Nat) : EtpResult :=
  match db.bookings.get? b with
  | none => .errNotFound
  | some booking =>
    if booking.userId ≠ user then .errAuth
    else if booking.status ≠ .confirmed then .errGeneric
    else .ok

/-- How a cancellation ends that starts in `s`; `m` says that memory may run out. -/
inductive CancelEnd (m : Prop) (b user : Nat) (s : Shared) :
    Shared → EtpResult → Option Nat → Prop where
  | refused {rc : EtpResult} : rc ≠ .ok → cancelResult s.db b user = rc →
      CancelEnd m b user s (s.ended s.db) rc none
  /-- A lock entry could not be allocated; the seats given back so far stay free. -/
  | starved (i : Nat) : m → (0 < i → cancelResult s.db b user = .ok) →
      CancelEnd m b user s (s.ended (releasedDb s.db b i)) .errGeneric none
  | cancelled (booking : BookingRecord) : cancelResult s.db b user = .ok →
      s.db.bookings.get? b = some booking →
      CancelEnd m b user s (s.ended (cancelledDb s.db b booking)) .ok none

theorem cancelSeats_perm {db : Db} {b : Nat} (h : (db.rowsOf b).length ≤ MAX_SEATS_PER_BOOKING) :
    (cancelSeats db b).Perm (db.rowsOf b) := by
  have hall : db.bookingSeats.scan (fun r => r.bookingId == b) MAX_SEATS_PER_BOOKING =
      db.bookingSeats.rows.filter (fun r => r.2.bookingId == b) := by
    refine List.take_of_length_le ?_
    rw [Db.rowsOf, List.length_map] at h
    exact h
  have hperm := (exchangeSort_perm BookingSeatRecord.seatId
    ((db.bookingSeats.scan (fun r => r.bookingId == b) MAX_SEATS_PER_BOOKING).map Prod.snd)).map
      BookingSeatRecord.seatId
  rw [hall, List.map_map] at hperm
  rw [cancelSeats, cancelRows, hall]
  exact hperm

theorem cancelSeats_length (db : Db) (b : Nat) :
    (cancelSeats db b).length ≤ MAX_SEATS_PER_BOOKING := by
  rw [cancelSeats, cancelRows, List.length_map, (exchangeSort_perm _ _).length_eq, List.length_map]
  exact List.length_take_le _ _

theorem cancelSeats_nodup {db : Db} {b : Nat} (h : (db.rowsOf b).Nodup) :
    (cancelSeats db b).Nodup := by
  have hperm := (exchangeSort_perm BookingSeatRecord.seatId
    ((db.bookingSeats.scan (fun r => r.bookingId == b) MAX_SEATS_PER_BOOKING).map Prod.snd)).map
      BookingSeatRecord.seatId
  rw [cancelSeats, cancelRows, hperm.nodup_iff, List.map_map]
  exact h.sublist ((List.take_sublist _ _).map _)

/-! ## The steps of the call -/

section Steps

variable {m q : Prop} {b user : Nat} {now : Int} {P : Shared → EtpResult → Option Nat → Prop}
  {s₀ s : Shared} {keys : List LockKey} {booking : BookingRecord} {txn : UInt32}

theorem tableStep_cancelFind {db : Db} (h : db.bookings.get? b = some booking)
    (hok : cancelResult db b user = .ok) :
    tableStep (.cancel b user) (Env.fine now) db txn .cancelFind =
      some (db, .table txn (.cancelScan booking)) := by
  rw [cancelResult, h] at hok
  simp only [tableStep, tableFindById, Env.fine, Call.bookingId, Call.userId, h]
  by_cases hu : booking.userId = user
  · by_cases hc : booking.status = .confirmed
    · simp [hu, hc]
    · simp [hu, hc] at hok
  · simp [hu] at hok

theorem tableStep_cancelRefused {db : Db} {rc : EtpResult} (hrc : rc ≠ .ok)
    (h : cancelResult db b user = rc) :
    tableStep (.cancel b user) (Env.fine now) db txn .cancelFind = some (db, .abort txn rc) := by
  rw [cancelResult] at h
  simp only [tableStep, tableFindById, Env.fine, Call.bookingId, Call.userId]
  cases hg : db.bookings.get? b with
  | none =>
    rw [hg] at h
    subst h
    rfl
  | some booking =>
    simp only [hg] at h
    by_cases hu : booking.userId = user
    · by_cases hc : booking.status = .confirmed
      · exact absurd (by simpa [hu, hc] using h.symm) hrc
      · obtain rfl : EtpResult.errGeneric = rc := by simpa [hu, hc] using h
        simp [hu, hc]
    · obtain rfl : EtpResult.errAuth = rc := by simpa [hu] using h
      simp [hu]

theorem tableStep_cancelUpdate {db : Db} {rows : List BookingSeatRecord} {i : Nat} {seat : SeatRecord}
    (h : db.seats.get? (seatAt (rows.map BookingSeatRecord.seatId) i) = some seat) :
    tableStep (.cancel b user) (Env.fine now) db txn (.cancelUpdateSeat booking rows i seat) =
      some ({ db with seats := db.seats.update (seatAt (rows.map BookingSeatRecord.seatId) i)
                        (freeSeat seat) }, cancelSeatLoop txn booking rows (i + 1)) := by
  rw [seatAt] at h
  simp only [tableStep, tableUpdate, Env.fine, h]
  rfl

theorem releasedDb_succ {db : Db} {i : Nat} (hi : i < (cancelSeats db b).length) :
    releasedDb db b (i + 1) = { releasedDb db b i with
      seats := (releasedDb db b i).seats.modifyAll freeSeat [seatAt (cancelSeats db b) i] } := by
  simp only [releasedDb, take_succ_seatAt hi, OTable.modifyAll_append]

/-- The update of the booking, and the end. -/
theorem returns_cancelUpdateBooking (hr : s₀.Ready) (hg : s₀.db.bookings.get? b = some booking)
    (hP : P (s₀.ended (cancelledDb s₀.db b booking)) .ok none)
    (hdb : s.db = releasedDb s₀.db b (cancelSeats s₀.db b).length) (hold : Holds s₀ s keys)
    {rows : List BookingSeatRecord} : Returns m q (.cancel b user) now P s
      (.table s₀.tm.nextTxnId (.cancelUpdateBooking booking rows)) := by
  have hs : tableStep (.cancel b user) (Env.fine now) s.db s₀.tm.nextTxnId
      (.cancelUpdateBooking booking rows) =
      some (cancelledDb s₀.db b booking, .commit s₀.tm.nextTxnId none) := by
    simp only [tableStep, tableUpdate, Env.fine, Call.bookingId, hdb, releasedDb, cancelledDb,
      List.take_length, hg]
    rfl
  exact Returns.table hs ((hold.db _).commit hr hP)

/-- The loop that gives the seats back, with `k` seats left. -/
theorem returns_cancelSeatLoop (hr : s₀.Ready) (hn : (cancelSeats s₀.db b).Nodup)
    (hg : s₀.db.bookings.get? b = some booking)
    (hP : P (s₀.ended (cancelledDb s₀.db b booking)) .ok none)
    (hmem : m → ∀ i, P (s₀.ended (releasedDb s₀.db b i)) .errGeneric none) (k : Nat) : ∀ i s,
      i + k = (cancelSeats s₀.db b).length → s.db = releasedDb s₀.db b i →
      Holds s₀ s (bookingKey b :: ((cancelSeats s₀.db b).take i).map seatKey) →
      Returns m q (.cancel b user) now P s
        (cancelSeatLoop s₀.tm.nextTxnId booking (cancelRows s₀.db b) i) := by
  have hrows : (cancelRows s₀.db b).length = (cancelSeats s₀.db b).length :=
    (List.length_map _).symm
  induction k with
  | zero =>
    intro i s hi hdb hold
    obtain rfl : i = (cancelSeats s₀.db b).length := hi
    unfold cancelSeatLoop
    rw [if_neg (by omega)]
    exact returns_cancelUpdateBooking hr hg hP hdb hold
  | succ k ih =>
    intro i s hi hdb hold
    have hlt : i < (cancelSeats s₀.db b).length := by omega
    have hkey : lockKey (.cancel b user) (.cancelSeat booking (cancelRows s₀.db b) i) =
        seatKey (seatAt (cancelSeats s₀.db b) i) := rfl
    unfold cancelSeatLoop
    rw [if_pos (by omega)]
    refine hold.lock hr ?_ ?_ ?_ fun hm => by rw [hdb]; exact hmem hm i
    · -- the seats are all different
      rw [hkey, List.mem_cons]
      rintro (hbk | hin)
      · cases hbk
      · obtain ⟨x, hx, hx'⟩ := List.mem_map.mp hin
        injection hx' with _ hrecord
        exact (ne_seatAt hn hlt).1 x hx hrecord
    · have hlen := cancelSeats_length s₀.db b
      have hbound : MAX_SEATS_PER_BOOKING + 1 < MAX_LOCKS_PER_TXN := by decide
      rw [List.length_cons, List.length_map, List.length_take]
      omega
    · intro s' hdb' hold'
      have hold'' : Holds s₀ s'
          (bookingKey b :: ((cancelSeats s₀.db b).take (i + 1)).map seatKey) := by
        rw [take_succ_seatAt hlt, List.map_append]
        exact hold'
      rw [hdb] at hdb'
      have hnext := releasedDb_succ (b := b) hlt
      cases hseat : s'.db.seats.get? (seatAt (cancelSeats s₀.db b) i) with
      | none =>
        have hs : tableStep (.cancel b user) (Env.fine now) s'.db s₀.tm.nextTxnId
            (.cancelFindSeat booking (cancelRows s₀.db b) i) =
            some (s'.db, cancelSeatLoop s₀.tm.nextTxnId booking (cancelRows s₀.db b) (i + 1)) := by
          have hget : s'.db.seats.get?
              (((cancelRows s₀.db b).map BookingSeatRecord.seatId).getD i 0) = none := hseat
          simp only [tableStep, tableFindById, Env.fine, hget]
          rfl
        refine Returns.table hs (ih (i + 1) s' (by omega) ?_ hold'')
        rw [hdb'] at hseat
        rw [hdb', hnext, OTable.modifyAll_missing hseat]
      | some seat =>
        have hs : tableStep (.cancel b user) (Env.fine now) s'.db s₀.tm.nextTxnId
            (.cancelFindSeat booking (cancelRows s₀.db b) i) =
            some (s'.db, .table s₀.tm.nextTxnId
              (.cancelUpdateSeat booking (cancelRows s₀.db b) i seat)) := by
          have hget : s'.db.seats.get?
              (((cancelRows s₀.db b).map BookingSeatRecord.seatId).getD i 0) = some seat := hseat
          simp only [tableStep, tableFindById, Env.fine, hget]
          rfl
        refine Returns.table hs ?_
        refine Returns.table (tableStep_cancelUpdate hseat) (ih (i + 1) _ (by omega) ?_ (hold''.db _))
        rw [hdb'] at hseat
        rw [hnext, OTable.modifyAll_singleton hseat, hdb']
        rfl

end Steps

/-- **A cancellation returns**, in one of the ways of `CancelEnd`. -/
theorem cancel_returns {m q : Prop} {s : Shared} {b user : Nat} {now : Int} (hr : s.Ready)
    (hn : (s.db.rowsOf b).Nodup) :
    Returns m q (.cancel b user) now (CancelEnd m b user s) s (.begin none) := by
  apply returns_begin hr
  intro s₁ hdb₁ hold₁
  refine hold₁.lock hr List.not_mem_nil (by decide) ?_ fun hm => ?_
  · intro s₂ hdb₂ hold₂
    rw [hdb₁] at hdb₂
    by_cases hok : cancelResult s.db b user = .ok
    · obtain ⟨booking, hg⟩ : ∃ booking, s.db.bookings.get? b = some booking := by
        cases hg : s.db.bookings.get? b with
        | none =>
          rw [cancelResult, hg] at hok
          cases hok
        | some booking => exact ⟨booking, rfl⟩
      refine Returns.table
        (tableStep_cancelFind (by rw [hdb₂]; exact hg) (by rw [hdb₂]; exact hok)) ?_
      have hs : tableStep (.cancel b user) (Env.fine now) s₂.db s.tm.nextTxnId
          (.cancelScan booking) =
          some (s₂.db, cancelSeatLoop s.tm.nextTxnId booking (cancelRows s.db b) 0) := by
        rw [hdb₂]
        rfl
      refine Returns.table hs ?_
      exact returns_cancelSeatLoop hr (cancelSeats_nodup hn) hg (.cancelled booking hok hg)
        (fun hm i => .starved i hm fun _ => hok) _ 0 _ (Nat.zero_add _) hdb₂ hold₂
    · refine Returns.table (tableStep_cancelRefused hok (by rw [hdb₂])) ?_
      exact hold₂.abort hr (by rw [hdb₂]; exact .refused hok rfl)
  · rw [hdb₁]
    exact .starved 0 hm fun hpos => absurd hpos (Nat.lt_irrefl 0)

/-- A cancellation that is refused, or starved before its first seat, leaves the tables alone. -/
theorem CancelEnd.unchanged {m : Prop} {b user : Nat} {s s' : Shared} {rc : EtpResult}
    {out : Option Nat} (h : CancelEnd m b user s s' rc out) (hnot : cancelResult s.db b user ≠ .ok) :
    rc ≠ .ok ∧ out = none ∧ s'.db = s.db := by
  cases h with
  | refused hrc _ => exact ⟨hrc, rfl, rfl⟩
  | starved i _ hok =>
    obtain rfl : i = 0 := Nat.eq_zero_of_not_pos fun hpos => hnot (hok hpos)
    exact ⟨by decide, rfl, rfl⟩
  | cancelled _ hok _ => exact absurd hok hnot

end Ticketing
