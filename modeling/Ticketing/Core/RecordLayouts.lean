import Ticketing.Core.BookingEngine
import Ticketing.Lib.PackedFields
import Ticketing.Storage.TableLayer

/-!
# The records of the booking engine in memory (`common/types.h`)

The structures are packed, so a record in memory is its bytes, and an assignment to a member writes a range
of them.

* `EventLayout`, `SeatLayout`, `BookingLayout`, `BookingSeatLayout` — where the members lie.
* `bookingBytes`, `junctionBytes`, `bookedSeat`, `freedSeat`, `cancelledBooking` — the assignments of the engine.
* `EventShows`, `SeatShows`, `BookingShows`, `BookingSeatShows` — the bytes of a record that is not deleted,
  and its members; one lemma for every assignment.
-/

set_option autoImplicit false

namespace Ticketing

open Bytes

/-! ## Layouts -/

/-- The members of `event_record_t` that the engine reads. -/
def EventLayout.price : PackedField := ⟨157, 4⟩
def EventLayout.status : PackedField := ⟨161, 1⟩

/-- `seat_record_t`. -/
def SeatLayout.eventId : PackedField := ⟨4, 4⟩
def SeatLayout.rowLabel : PackedField := ⟨8, 1⟩
def SeatLayout.seatNumber : PackedField := ⟨9, 2⟩
def SeatLayout.status : PackedField := ⟨11, 1⟩
def SeatLayout.bookedBy : PackedField := ⟨12, 4⟩

/-- `booking_record_t`. -/
def BookingLayout.userId : PackedField := ⟨4, 4⟩
def BookingLayout.eventId : PackedField := ⟨8, 4⟩
def BookingLayout.seatCount : PackedField := ⟨12, 2⟩
def BookingLayout.totalAmount : PackedField := ⟨14, 4⟩
def BookingLayout.status : PackedField := ⟨18, 1⟩
def BookingLayout.bookedAt : PackedField := ⟨19, 8⟩

/-- `booking_seat_record_t`. -/
def BookingSeatLayout.bookingId : PackedField := ⟨0, 4⟩
def BookingSeatLayout.seatId : PackedField := ⟨4, 4⟩

/-- The primary key of a record. -/
def keyField (id : TableId) : PackedField := ⟨keyOffset id, 4⟩

/-- `is_deleted`. -/
def deletedFlag (id : TableId) : PackedField := ⟨getDeletedFlagOffset id, 1⟩

/-! ## Enumerations -/

/-- The number of an `event_status_t`. -/
def EventStatus.code : EventStatus → Nat
  | .active => 0
  | .cancelled => 1

/-- The number of a `seat_status_t`. -/
def SeatStatus.code : SeatStatus → Nat
  | .available => 0
  | .locked => 1
  | .booked => 2

/-- The number of a `booking_status_t`. -/
def BookingStatus.code : BookingStatus → Nat
  | .confirmed => 0
  | .cancelled => 1

/-! ## What the engine stores -/

/-- The assignments to a new `booking_record_t`; the price is that of the event. -/
def bookingMembers (c : Call) (evt : Bytes) (now : Int) : List (PackedField × Nat) :=
  [(BookingLayout.userId, c.userId), (BookingLayout.eventId, c.eventId),
    (BookingLayout.seatCount, c.seats.length),
    (BookingLayout.totalAmount,
      (Float32.ofBits (UInt32.ofNat (EventLayout.price.get evt)) * Float32.ofNat c.seats.length).toBits.toNat),
    (BookingLayout.status, BookingStatus.code .confirmed), (BookingLayout.bookedAt, (now % 2 ^ 64).toNat),
    (deletedFlag .bookings, 0)]

/-- `memset(&booking, 0, sizeof(booking))`, and the assignments. -/
def bookingBytes (c : Call) (evt : Bytes) (now : Int) : Bytes :=
  PackedField.assign (bookingMembers c evt now) (List.replicate (etpRecordSize .bookings) 0)

/-- The junction record of a seat. -/
def junctionBytes (bookingId seatId : Nat) : Bytes :=
  PackedField.assign
    [(BookingSeatLayout.bookingId, bookingId), (BookingSeatLayout.seatId, seatId), (deletedFlag .bookingSeats, 0)]
    (List.replicate (etpRecordSize .bookingSeats) 0)

/-- The seat that has been read, for a user. -/
def bookedSeat (userId : Nat) (seat : Bytes) : Bytes :=
  PackedField.assign [(SeatLayout.status, SeatStatus.code .booked), (SeatLayout.bookedBy, userId)] seat

/-- The seat that has been read, for nobody. -/
def freedSeat (seat : Bytes) : Bytes :=
  PackedField.assign [(SeatLayout.status, SeatStatus.code .available), (SeatLayout.bookedBy, 0)] seat

def cancelledBooking (booking : Bytes) : Bytes :=
  PackedField.assign [(BookingLayout.status, BookingStatus.code .cancelled)] booking

/-! ## Records and their members -/

/-- A record of the table that is not marked as deleted. -/
structure LiveRecord (id : TableId) (b : Bytes) : Prop where
  length : b.length = etpRecordSize id
  live : (deletedFlag id).get b = 0

/-- The price is the number whose bits the member holds. -/
structure EventShows (b : Bytes) (evt : EventRecord) : Prop extends LiveRecord .events b where
  price : evt.price = Float32.ofBits (UInt32.ofNat (EventLayout.price.get b))
  status : EventLayout.status.get b = evt.status.code

structure SeatShows (b : Bytes) (seat : SeatRecord) : Prop extends LiveRecord .seats b where
  eventId : SeatLayout.eventId.get b = seat.eventId
  rowLabel : SeatLayout.rowLabel.get b = seat.rowLabel.toNat
  seatNumber : SeatLayout.seatNumber.get b = seat.seatNumber.toNat
  status : SeatLayout.status.get b = seat.status.code
  bookedBy : SeatLayout.bookedBy.get b = seat.bookedBy

/-- The member holds the bits of the amount, and the time in two's complement. -/
structure BookingShows (b : Bytes) (booking : BookingRecord) : Prop extends LiveRecord .bookings b where
  userId : BookingLayout.userId.get b = booking.userId
  eventId : BookingLayout.eventId.get b = booking.eventId
  seatCount : BookingLayout.seatCount.get b = booking.seatCount
  totalAmount : BookingLayout.totalAmount.get b = booking.totalAmount.toBits.toNat
  status : BookingLayout.status.get b = booking.status.code
  bookedAt : Int.bmod (BookingLayout.bookedAt.get b) (2 ^ 64) = booking.bookedAt

structure BookingSeatShows (b : Bytes) (r : BookingSeatRecord) : Prop extends LiveRecord .bookingSeats b where
  bookingId : BookingSeatLayout.bookingId.get b = r.bookingId
  seatId : BookingSeatLayout.seatId.get b = r.seatId

/-! ## Live records -/

section Live

variable {id : TableId} {b : Bytes}

theorem Memory.getD_bytes (m : Memory) {n i : Nat} (h : i < n) : (m.bytes n).getD i 0 = m i := by
  rw [Memory.bytes, List.getD_eq_getElem?_getD, List.getElem?_map, List.getElem?_range h]
  rfl

/-- The record as the table layer takes it. -/
theorem LiveRecord.flag (h : LiveRecord id b) : recordAt b 0 (getDeletedFlagOffset id) = 0 := by
  have hlow : ∀ x : Bytes, (x.getD 0 0).toNat ≤ ofLE x
    | [] => Nat.le_refl 0
    | a :: x => Nat.le_add_right _ _
  have hbyte := hlow (slice (getDeletedFlagOffset id) 1 b)
  have hzero : ofLE (slice (getDeletedFlagOffset id) 1 b) = 0 := h.live
  rw [hzero, getD_slice, if_pos Nat.one_pos, Nat.add_zero] at hbyte
  unfold recordAt
  rw [Nat.zero_add]
  exact UInt8.toNat_inj.mp (Nat.le_zero.mp hbyte)

theorem LiveRecord.bytes (h : LiveRecord id b) : (recordAt b 0).bytes (etpRecordSize id) = b := by
  refine ext_getD (by rw [Memory.length_bytes, h.length]) fun i hi => ?_
  rw [Memory.length_bytes] at hi
  rw [Memory.getD_bytes _ hi, recordAt, Nat.zero_add]

/-- `table_insert` stores the record with its key. -/
theorem LiveRecord.stored (h : LiveRecord id b) (newId : Nat) :
    storedRecord id newId (recordAt b 0) = (keyField id).set newId b := by
  have hkey : keyOffset id + 4 ≤ b.length := by
    rw [h.length]
    exact keyOffset_le id
  have hlen : (keyField id).offset + (keyField id).width ≤ b.length := hkey
  refine ext_getD ?_ fun i hi => ?_
  · rw [storedRecord, Memory.length_bytes, PackedField.length_set newId hlen, h.length]
  · rw [storedRecord, Memory.length_bytes] at hi
    rw [storedRecord, Memory.getD_bytes _ hi, PackedField.set, getD_splice (by rwa [length_toLE])]
    simp only [stampKey, keyField, length_toLE, recordAt, Nat.zero_add]

/-- Assignments to other members. -/
theorem LiveRecord.assign (h : LiveRecord id b) {fs : List (PackedField × Nat)} {names : List PackedField}
    (hnames : fs.map Prod.fst = names) (hfit : ∀ f ∈ names, f.offset + f.width ≤ etpRecordSize id)
    (hapart : ∀ f ∈ names, f.Apart (deletedFlag id)) : LiveRecord id (PackedField.assign fs b) := by
  rw [← h.length] at hfit
  exact ⟨(PackedField.length_assign hnames hfit).trans h.length,
    (PackedField.get_assign_ne hnames hfit hapart).trans h.live⟩

end Live

/-! ## Assignments of the engine -/

section Assignments

variable {b evt : Bytes}

theorem EventStatus.code_injective {x y : EventStatus} (h : x.code = y.code) : x = y := by
  cases x <;> cases y <;> first | rfl | cases h

theorem SeatStatus.code_injective {x y : SeatStatus} (h : x.code = y.code) : x = y := by
  cases x <;> cases y <;> first | rfl | cases h

theorem BookingStatus.code_injective {x y : BookingStatus} (h : x.code = y.code) : x = y := by
  cases x <;> cases y <;> first | rfl | cases h

/-- A seat changes hands. -/
theorem SeatShows.assign {seat : SeatRecord} (h : SeatShows b seat) {status : SeatStatus} {user : Nat}
    (huser : user < 2 ^ 32) :
    SeatShows (PackedField.assign [(SeatLayout.status, status.code), (SeatLayout.bookedBy, user)] b)
      { seat with status := status, bookedBy := user } := by
  have hnames : [(SeatLayout.status, status.code), (SeatLayout.bookedBy, user)].map Prod.fst =
      [SeatLayout.status, SeatLayout.bookedBy] := rfl
  have hfit : ∀ f ∈ [SeatLayout.status, SeatLayout.bookedBy], f.offset + f.width ≤ b.length := by
    rw [h.length]
    decide
  have hcode : status.code < 256 ^ 1 := by cases status <;> decide
  refine ⟨h.toLiveRecord.assign hnames (by decide) (by decide), ?_, ?_, ?_, ?_, ?_⟩
  · exact (PackedField.get_assign_ne hnames hfit (by decide)).trans h.eventId
  · exact (PackedField.get_assign_ne hnames hfit (by decide)).trans h.rowLabel
  · exact (PackedField.get_assign_ne hnames hfit (by decide)).trans h.seatNumber
  · exact (PackedField.get_assign (by simp) hnames hfit (by decide)).trans (Nat.mod_eq_of_lt hcode)
  · exact (PackedField.get_assign (by simp) hnames hfit (by decide)).trans (Nat.mod_eq_of_lt huser)

theorem SeatShows.assign_key {seat : SeatRecord} (h : SeatShows b seat) {status user : Nat} :
    (keyField .seats).get (PackedField.assign [(SeatLayout.status, status), (SeatLayout.bookedBy, user)] b) =
      (keyField .seats).get b := by
  have hfit : ∀ f ∈ [SeatLayout.status, SeatLayout.bookedBy], f.offset + f.width ≤ b.length := by
    rw [h.length]
    decide
  have hapart : ∀ f ∈ [SeatLayout.status, SeatLayout.bookedBy], f.Apart (keyField .seats) := by decide
  exact PackedField.get_assign_ne rfl hfit hapart

theorem BookingShows.cancel_key {booking : BookingRecord} (h : BookingShows b booking) :
    (keyField .bookings).get (cancelledBooking b) = (keyField .bookings).get b := by
  have hfit : ∀ f ∈ [BookingLayout.status], f.offset + f.width ≤ b.length := by
    rw [h.length]
    decide
  exact PackedField.get_assign_ne rfl hfit (by decide)

theorem BookingShows.cancel {booking : BookingRecord} (h : BookingShows b booking) :
    BookingShows (cancelledBooking b) { booking with status := .cancelled } := by
  have hnames : [(BookingLayout.status, BookingStatus.code .cancelled)].map Prod.fst = [BookingLayout.status] := rfl
  have hfit : ∀ f ∈ [BookingLayout.status], f.offset + f.width ≤ b.length := by
    rw [h.length]
    decide
  refine ⟨h.toLiveRecord.assign hnames (by decide) (by decide), ?_, ?_, ?_, ?_, ?_, ?_⟩
  · exact (PackedField.get_assign_ne hnames hfit (by decide)).trans h.userId
  · exact (PackedField.get_assign_ne hnames hfit (by decide)).trans h.eventId
  · exact (PackedField.get_assign_ne hnames hfit (by decide)).trans h.seatCount
  · exact (PackedField.get_assign_ne hnames hfit (by decide)).trans h.totalAmount
  · exact PackedField.get_assign (List.mem_singleton_self _) hnames hfit (by decide)
  · rw [cancelledBooking, PackedField.get_assign_ne hnames hfit (by decide)]
    exact h.bookedAt

/-- The assignments to a record of zeros, the deletion flag among them. -/
theorem liveRecord_new {id : TableId} {fs : List (PackedField × Nat)} {names : List PackedField}
    (hnames : fs.map Prod.fst = names)
    (hfit : ∀ f ∈ names, f.offset + f.width ≤ (List.replicate (etpRecordSize id) (0 : UInt8)).length)
    (hapart : names.Pairwise fun f g => g.Apart f) (hflag : (deletedFlag id, 0) ∈ fs) :
    LiveRecord id (PackedField.assign fs (List.replicate (etpRecordSize id) 0)) :=
  ⟨(PackedField.length_assign hnames hfit).trans List.length_replicate,
    (PackedField.get_assign hflag hnames hfit hapart).trans (Nat.zero_mod _)⟩

theorem bookingSeatShows_new {bookingId seatId : Nat} (hbooking : bookingId < 2 ^ 32) (hseat : seatId < 2 ^ 32) :
    BookingSeatShows (junctionBytes bookingId seatId) ⟨bookingId, seatId⟩ := by
  have hnames : [(BookingSeatLayout.bookingId, bookingId), (BookingSeatLayout.seatId, seatId),
      (deletedFlag .bookingSeats, 0)].map Prod.fst =
      [BookingSeatLayout.bookingId, BookingSeatLayout.seatId, deletedFlag .bookingSeats] := rfl
  refine ⟨liveRecord_new hnames (by decide) (by decide) (by simp), ?_, ?_⟩
  · exact (PackedField.get_assign (by simp) hnames (by decide) (by decide)).trans (Nat.mod_eq_of_lt hbooking)
  · exact (PackedField.get_assign (by simp) hnames (by decide) (by decide)).trans (Nat.mod_eq_of_lt hseat)

/-- A time that fits an `int64_t` is read as it was stored. -/
theorem bmod_emod_time {now : Int} (hlow : -(2 ^ 63) ≤ now) (hhigh : now < 2 ^ 63) :
    Int.bmod ((now % 2 ^ 64).toNat % 256 ^ 8 : Nat) (2 ^ 64) = now := by
  have hpos : 0 ≤ now % 2 ^ 64 := Int.emod_nonneg _ (by decide)
  have hlt : now % 2 ^ 64 < 2 ^ 64 := Int.emod_lt_of_pos _ (by decide)
  rw [Nat.mod_eq_of_lt (by omega), Int.toNat_of_nonneg hpos]
  have hmod : Int.bmod (now % ((2 ^ 64 : Nat) : Int)) (2 ^ 64) = Int.bmod now (2 ^ 64) :=
    Int.emod_bmod now (2 ^ 64)
  exact hmod.trans (Int.bmod_eq_of_le (by omega) (by omega))

theorem bookingShows_new {c : Call} {evt : EventRecord} {e : Bytes} (he : EventShows e evt) {now : Int}
    (hlow : -(2 ^ 63) ≤ now) (hhigh : now < 2 ^ 63) (huser : c.userId < 2 ^ 32) (hevent : c.eventId < 2 ^ 32)
    (hseats : c.seats.length < 2 ^ 16) :
    BookingShows (bookingBytes c e now)
      { userId := c.userId, eventId := c.eventId, seatCount := c.seats.length,
        totalAmount := evt.price * Float32.ofNat c.seats.length, status := .confirmed, bookedAt := now } := by
  have hamount : (evt.price * Float32.ofNat c.seats.length).toBits.toNat < 256 ^ 4 := UInt32.toNat_lt _
  have hnames : (bookingMembers c e now).map Prod.fst =
      [BookingLayout.userId, BookingLayout.eventId, BookingLayout.seatCount, BookingLayout.totalAmount,
        BookingLayout.status, BookingLayout.bookedAt, deletedFlag .bookings] := rfl
  have hread : ∀ {f : PackedField} {v : Nat}, (f, v) ∈ bookingMembers c e now →
      f.get (bookingBytes c e now) = v % 256 ^ f.width :=
    fun hmem => PackedField.get_assign hmem hnames (by decide) (by decide)
  refine ⟨liveRecord_new hnames (by decide) (by decide) (by simp [bookingMembers]), ?_, ?_, ?_, ?_, ?_, ?_⟩
  · exact (hread (by simp [bookingMembers])).trans (Nat.mod_eq_of_lt huser)
  · exact (hread (by simp [bookingMembers])).trans (Nat.mod_eq_of_lt hevent)
  · exact (hread (by simp [bookingMembers])).trans (Nat.mod_eq_of_lt hseats)
  · refine (hread (v := (evt.price * Float32.ofNat c.seats.length).toBits.toNat) ?_).trans
      (Nat.mod_eq_of_lt hamount)
    rw [he.price]
    simp [bookingMembers]
  · exact hread (v := BookingStatus.code .confirmed) (by simp [bookingMembers])
  · rw [hread (v := (now % 2 ^ 64).toNat) (by simp [bookingMembers])]
    exact bmod_emod_time hlow hhigh

/-- The key does not lie in any other member. -/
theorem LiveRecord.keyed {id : TableId} (h : LiveRecord id b) (k : Nat) :
    LiveRecord id ((keyField id).set k b) := by
  have hfit : (keyField id).offset + (keyField id).width ≤ b.length := by
    rw [h.length]
    exact keyOffset_le id
  have hapart : (keyField id).Apart (deletedFlag id) := (key_flag_disjoint id).symm
  exact ⟨(PackedField.length_set k hfit).trans h.length, (PackedField.get_set_ne k hfit hapart).trans h.live⟩

theorem BookingShows.keyed {booking : BookingRecord} (h : BookingShows b booking) (k : Nat) :
    BookingShows ((keyField .bookings).set k b) booking := by
  have hfit : (keyField .bookings).offset + (keyField .bookings).width ≤ b.length := by
    rw [h.length]
    decide
  refine ⟨h.toLiveRecord.keyed k, ?_, ?_, ?_, ?_, ?_, ?_⟩
  · exact (PackedField.get_set_ne k hfit (by decide)).trans h.userId
  · exact (PackedField.get_set_ne k hfit (by decide)).trans h.eventId
  · exact (PackedField.get_set_ne k hfit (by decide)).trans h.seatCount
  · exact (PackedField.get_set_ne k hfit (by decide)).trans h.totalAmount
  · exact (PackedField.get_set_ne k hfit (by decide)).trans h.status
  · rw [PackedField.get_set_ne k hfit (by decide)]
    exact h.bookedAt

theorem BookingSeatShows.keyed {r : BookingSeatRecord} (h : BookingSeatShows b r) (k : Nat) :
    BookingSeatShows ((keyField .bookingSeats).set k b) r := by
  have hfit : (keyField .bookingSeats).offset + (keyField .bookingSeats).width ≤ b.length := by
    rw [h.length]
    decide
  exact ⟨h.toLiveRecord.keyed k, (PackedField.get_set_ne k hfit (by decide)).trans h.bookingId,
    (PackedField.get_set_ne k hfit (by decide)).trans h.seatId⟩

end Assignments

end Ticketing
