import Ticketing.Core.EventManager

/-!
# Revenue reports (`server/core/reports.c`)

* `reportsEventRevenue` — one event: its seats are scanned and the booked ones counted.  It takes
  any event id.  `memory` says whether `malloc` has room for the seats.
* `reportsOrganizerRevenue` — the active events of one organizer.
-/

set_option autoImplicit false

namespace Ticketing

open CText

/-- `event_revenue_t`. -/
structure EventRevenue where
  eventId : Nat
  eventName : CStr
  totalSeats : Nat
  bookedSeats : Nat
  occupancyPct : Float32
  totalRevenue : Float32

/-- The most seats one report scans. -/
def MAX_REPORT_SEATS : Nat := 2600

/-- `reports_event_revenue`. -/
def reportsEventRevenue (events : OTable EventRow) (seats : OTable SeatRecord) (eventId : Nat)
    (find scan : TableFault) (memory : Bool) : Except EtpResult EventRevenue :=
  match findRecord events eventId find with
  | .error rc => .error rc
  | .ok evt =>
    if !memory then .error .errGeneric
    else
      let found := scanRecords seats (fun s => s.eventId == eventId) MAX_REPORT_SEATS scan
      let total := found.length
      let booked := found.countP (fun r => r.2.status == .booked)
      .ok
        { eventId := eventId, eventName := strlcpy 64 evt.name, totalSeats := total,
          bookedSeats := booked,
          occupancyPct := if total > 0 then Float32.ofNat booked / Float32.ofNat total * 100 else 0,
          totalRevenue := Float32.ofNat booked * evt.price }

/-- `filter_by_organizer`. -/
def filterByOrganizer (organizerId : Nat) (e : EventRow) : Bool :=
  e.organizerId == organizerId && e.status == .active

/-- `reports_organizer_revenue`; the `i`-th event takes the table calls `2 i + 1` and `2 i + 2` and the `i`-th
`malloc`.  An event without a report is left out. -/
def reportsOrganizerRevenue (events : OTable EventRow) (seats : OTable SeatRecord)
    (organizerId max : Nat) (fault : Nat → TableFault) (memory : Nat → Bool) : List EventRevenue :=
  let own := scanRecords events (filterByOrganizer organizerId) 100 (fault 0)
  (own.zipIdx.filterMap fun r =>
    (reportsEventRevenue events seats r.1.1 (fault (2 * r.2 + 1)) (fault (2 * r.2 + 2)) (memory r.2)).toOption).take
    max

/-- `reports_format_revenue` into a buffer of `size` bytes. -/
def reportsFormatRevenue (libc : FloatLibc) (report : EventRevenue) (size : Nat) : CStr :=
  strlcpy size
    (text "Event: " ++ report.eventName ++ text " (ID: " ++ decimal report.eventId ++ text ")\n" ++
      text "  Seats:     " ++ decimal report.bookedSeats ++ text " booked / " ++
      decimal report.totalSeats ++ text " total\n" ++
      text "  Occupancy: " ++ libc.fixed 1 report.occupancyPct ++ text "%\n" ++
      text "  Revenue:   Rs. " ++ libc.fixed 2 report.totalRevenue ++ text "\n")

end Ticketing
