import Ticketing.Lib.CText
import Ticketing.Storage.TableCalls
import Ticketing.Core.BookingEngine

/-!
# Event manager (`server/core/event_mgr.c`)

* `EventRow` — the whole event record; the booking engine reads `EventRow.record` of it.
* `eventMgrCreateEvent` — the event and its grid of seats; a seat that cannot be inserted is left
  out without an error.
-/

set_option autoImplicit false

namespace Ticketing

open CText

/-- `event_record_t`; its key and deletion flag belong to the table. -/
structure EventRow where
  name : CStr
  venue : CStr
  eventDate : CStr
  eventTime : CStr
  organizerId : Nat
  totalRows : Nat
  seatsPerRow : Nat
  price : Float32
  status : EventStatus

/-- The part of an event the booking engine reads. -/
def EventRow.record (e : EventRow) : EventRecord := ⟨e.status, e.price⟩

/-- The seats of a new event, row by row. -/
def seatGrid (eventId totalRows seatsPerRow : Nat) : List SeatRecord :=
  (List.range totalRows).flatMap fun row =>
    (List.range seatsPerRow).map fun i =>
      ⟨eventId, UInt8.ofNat (65 + row), UInt16.ofNat (i + 1), .available, 0⟩

theorem length_seatGrid (eventId totalRows seatsPerRow : Nat) :
    (seatGrid eventId totalRows seatsPerRow).length = totalRows * seatsPerRow := by
  unfold seatGrid
  induction totalRows with
  | zero => simp
  | succ n ih =>
    rw [List.range_succ, List.flatMap_append, List.length_append, ih, Nat.succ_mul]
    simp

/-- The seats of a new event are free and belong to it. -/
theorem mem_seatGrid {eventId totalRows seatsPerRow : Nat} {seat : SeatRecord}
    (h : seat ∈ seatGrid eventId totalRows seatsPerRow) :
    seat.eventId = eventId ∧ seat.status = .available ∧ seat.bookedBy = 0 := by
  obtain ⟨row, -, hrow⟩ := List.mem_flatMap.mp h
  obtain ⟨i, -, rfl⟩ := List.mem_map.mp hrow
  exact ⟨rfl, rfl, rfl⟩

/-- The insertion loop; call `k` is the first. -/
def insertSeats (fault : Nat → TableFault) :
    Nat → OTable SeatRecord → List SeatRecord → Option (OTable SeatRecord)
  | _, seats, [] => some seats
  | k, seats, seat :: rest =>
    (insertRecord seats seat (fault k)).bind fun r => insertSeats fault (k + 1) r.1 rest

/-- `event_mgr_create_event`: the tables, the result and, on success, the new id. -/
def eventMgrCreateEvent (libc : FloatLibc) (events : OTable EventRow) (seats : OTable SeatRecord)
    (name venue date time : CStr) (organizerId totalRows seatsPerRow : Nat) (price : Float32)
    (fault : Nat → TableFault) :
    Option (OTable EventRow × OTable SeatRecord × EtpResult × Option Nat) :=
  if !libc.isFinite price || libc.isNegative price then some (events, seats, .errInvalidArg, none)
  else if totalRows = 0 ∨ totalRows > MAX_SEAT_ROWS then some (events, seats, .errInvalidArg, none)
  else if seatsPerRow = 0 ∨ seatsPerRow > MAX_SEATS_PER_ROW then
    some (events, seats, .errInvalidArg, none)
  else
    let evt : EventRow :=
      { name := strlcpy 64 name, venue := strlcpy 64 venue, eventDate := strlcpy 11 date,
        eventTime := strlcpy 6 time, organizerId := organizerId, totalRows := totalRows,
        seatsPerRow := seatsPerRow, price := price, status := .active }
    (insertRecord events evt (fault 0)).bind fun r =>
      match r.2 with
      | .error rc => some (r.1, seats, rc, none)
      | .ok eventId =>
        (insertSeats fault 1 seats (seatGrid eventId totalRows seatsPerRow)).map fun seats =>
          (r.1, seats, .ok, some eventId)

/-- `event_mgr_get_event`. -/
def eventMgrGetEvent (events : OTable EventRow) (eventId : Nat) (fault : TableFault) :
    Except EtpResult EventRow :=
  findRecord events eventId fault

/-- `event_mgr_list_events`. -/
def eventMgrListEvents (events : OTable EventRow) (max : Nat) (fault : TableFault) :
    List (Nat × EventRow) :=
  scanRecords events (fun e => e.status == .active) max fault

/-- `event_mgr_get_seats`. -/
def eventMgrGetSeats (seats : OTable SeatRecord) (eventId max : Nat) (fault : TableFault) :
    List (Nat × SeatRecord) :=
  scanRecords seats (fun s => s.eventId == eventId) max fault

/-- `event_mgr_delete_event`; it does not look at the record. -/
def eventMgrDeleteEvent {α : Type} (events : OTable α) (eventId : Nat) (fault : TableFault) :
    OTable α × EtpResult :=
  deleteRecord events eventId fault

/-- The insertion loop when nothing fails and there are ids left. -/
theorem insertSeats_all {fault : Nat → TableFault} (hf : ∀ k, fault k = .none) {grid : List SeatRecord} :
    ∀ {k : Nat} {seats : OTable SeatRecord}, seats.nextId + grid.length ≤ 2 ^ 32 →
      insertSeats fault k seats grid = some (seats.insertAll grid) := by
  induction grid with
  | nil => exact fun _ => rfl
  | cons seat grid ih =>
    intro k seats hids
    rw [List.length_cons] at hids
    have hid : seats.nextId < 2 ^ 32 := by omega
    have hinsert : insertRecord seats seat (fault k) = some (seats.insert seat, .ok seats.nextId) := by
      rw [hf k]
      exact if_pos hid
    rw [insertSeats, hinsert, Option.bind_some, ih (by rw [OTable.nextId_insert]; omega)]
    rfl

section Bounds

variable {libc : FloatLibc} {events : OTable EventRow} {seats : OTable SeatRecord}
  {name venue date time : CStr} {organizerId totalRows seatsPerRow : Nat} {price : Float32}
  {fault : Nat → TableFault}

/-- Numbers out of bounds are refused. -/
theorem eventMgrCreateEvent_refused (hout : (totalRows = 0 ∨ totalRows > MAX_SEAT_ROWS) ∨
    seatsPerRow = 0 ∨ seatsPerRow > MAX_SEATS_PER_ROW) :
    eventMgrCreateEvent libc events seats name venue date time organizerId totalRows seatsPerRow price
      fault = some (events, seats, .errInvalidArg, none) := by
  unfold eventMgrCreateEvent
  split
  · rfl
  · by_cases hrows : totalRows = 0 ∨ totalRows > MAX_SEAT_ROWS
    · rw [if_pos hrows]
    · rw [if_neg hrows, if_pos (hout.resolve_left hrows)]

/-- Within the bounds, with a valid price, ids left and storage that does not fail, the event gets its
whole grid. -/
theorem eventMgrCreateEvent_all (hf : ∀ k, fault k = .none) (hfinite : libc.isFinite price = true)
    (hnonneg : libc.isNegative price = false) (hrows : ¬ (totalRows = 0 ∨ totalRows > MAX_SEAT_ROWS))
    (hcols : ¬ (seatsPerRow = 0 ∨ seatsPerRow > MAX_SEATS_PER_ROW)) (hevent : events.nextId < 2 ^ 32)
    (hseats : seats.nextId + (seatGrid events.nextId totalRows seatsPerRow).length ≤ 2 ^ 32) :
    ∃ evt : EventRow, evt.totalRows = totalRows ∧ evt.seatsPerRow = seatsPerRow ∧
      eventMgrCreateEvent libc events seats name venue date time organizerId totalRows seatsPerRow price
        fault = some (events.insert evt,
          seats.insertAll (seatGrid events.nextId totalRows seatsPerRow), .ok, some events.nextId) := by
  refine ⟨⟨strlcpy 64 name, strlcpy 64 venue, strlcpy 11 date, strlcpy 6 time, organizerId, totalRows,
    seatsPerRow, price, .active⟩, rfl, rfl, ?_⟩
  have hinsert : ∀ evt, insertRecord events evt (fault 0) = some (events.insert evt, .ok events.nextId) := by
    intro evt
    rw [hf 0]
    exact if_pos hevent
  unfold eventMgrCreateEvent
  rw [if_neg (by rw [hfinite, hnonneg]; decide), if_neg hrows, if_neg hcols]
  dsimp only
  rw [hinsert, Option.bind_some]
  dsimp only
  rw [insertSeats_all hf hseats, Option.map_some]

end Bounds

/-- Creating an event drops none. -/
theorem eventMgrCreateEvent_keeps {libc : FloatLibc} {events events' : OTable EventRow}
    {seats seats' : OTable SeatRecord} {name venue date time : CStr}
    {organizerId totalRows seatsPerRow : Nat} {price : Float32} {fault : Nat → TableFault}
    {rc : EtpResult} {out : Option Nat}
    (h : eventMgrCreateEvent libc events seats name venue date time organizerId totalRows
      seatsPerRow price fault = some (events', seats', rc, out)) {id : Nat} {e : EventRow}
    (he : events.get? id = some e) : events'.get? id = some e := by
  unfold eventMgrCreateEvent at h
  split at h
  · cases h
    exact he
  · split at h
    · cases h
      exact he
    · split at h
      · cases h
        exact he
      · obtain ⟨⟨t, r⟩, hins, hr⟩ := Option.bind_eq_some_iff.mp h
        have hkeep := insertRecord_keeps hins he
        cases r with
        | error rc =>
          cases hr
          exact hkeep
        | ok eventId =>
          obtain ⟨seats'', -, hs⟩ := Option.map_eq_some_iff.mp hr
          cases hs
          exact hkeep

/-- A C library for runs that print and read no floating-point number. -/
def noFloats : FloatLibc := ⟨fun _ => 0, fun _ => true, fun _ => false, fun _ _ => []⟩

end Ticketing
