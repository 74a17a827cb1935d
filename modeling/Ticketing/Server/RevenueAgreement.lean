import Ticketing.Server.Privileges
import Ticketing.Core.BookingTurns

/-!
# Revenue reports agree with the bookings

`reports_event_revenue` counts the seats of an event, the bookings are counted in two other tables.
Requests run to their end one after another.

* `TicketOp`, `ticketStep` — the requests that change events, seats and bookings.
* `insertSeats_spec` — the seats of a new event.
* `RevenueInv` — each live event has its grid of seats, and the tables agree.
* `revenue_agrees` — the report, the booking records and their junction rows give one number.
-/

set_option autoImplicit false

namespace Ticketing

open CText

/-! ## Requests -/

/-- A request that changes events, seats or bookings, with what happens to its steps. -/
inductive TicketOp where
  | create (name venue date time : CStr) (organizerId totalRows seatsPerRow : Nat) (price : Float32)
      (fault : Nat → TableFault)
  | delete (eventId : Nat) (fault : TableFault)
  | book (userId eventId : Nat) (seatIds : List Nat) (now : Int) (faults : List EngineFault)
  | cancel (bookingId userId : Nat) (now : Int) (faults : List EngineFault)

/-- Storage and log do not fail in the request; memory for lock entries may. -/
def TicketOp.StorageFine : TicketOp → Prop
  | .create _ _ _ _ _ _ _ _ fault => ∀ k, fault k = .none
  | .delete _ fault => fault = .none
  | .book _ _ _ _ faults => ∀ f ∈ faults, f.StorageFine
  | .cancel _ _ _ faults => ∀ f ∈ faults, f.StorageFine

/-- The request is not a cancellation that finds no memory for a lock entry. -/
def TicketOp.CancelLocks : TicketOp → Prop
  | .cancel _ _ _ faults => ∀ f ∈ faults, f.lockAlloc = true
  | _ => True

/-- The server after a request; `none` if it does not come to an end. -/
def ticketStep (libc : FloatLibc) (s : Server) : TicketOp → Option Server
  | .create name venue date time organizerId totalRows seatsPerRow price fault =>
    (eventMgrCreateEvent libc s.events s.seats name venue date time organizerId totalRows
      seatsPerRow price fault).map fun r => { s with events := r.1, seats := r.2.1 }
  | .delete eventId fault =>
    some { s with events := (eventMgrDeleteEvent s.events eventId fault).1 }
  | .book userId eventId seatIds now faults =>
    (bookingBookSeats s.shared userId eventId seatIds now faults).map fun r => s.withShared r.1
  | .cancel bookingId userId now faults =>
    (bookingCancel s.shared bookingId userId now faults).map fun r => s.withShared r.1

/-- A server without events, seats and bookings. -/
def Server.empty (users : OTable UserRecord) (auth : AuthManager) (stats : ServerStats) : Server where
  users := users
  events := .empty 1
  seats := .empty 1
  bookings := .empty 1
  bookingSeats := .empty 1
  locks := lockMgrCreate
  tm := txnMgrCreate
  auth := auth
  stats := stats

/-- The insertion loop when nothing fails. -/
structure Appended (seats seats' : OTable SeatRecord) (grid : List SeatRecord) : Prop where
  keep : ∀ t seat, seats.get? t = some seat → seats'.get? t = some seat
  new : ∀ t seat, seats'.get? t = some seat → seats.get? t = some seat ∨ seat ∈ grid
  records : seats'.rows.map Prod.snd = seats.rows.map Prod.snd ++ grid

theorem insertSeats_spec {fault : Nat → TableFault} (hf : ∀ k, fault k = .none)
    {grid : List SeatRecord} : ∀ {k : Nat} {seats seats' : OTable SeatRecord},
      insertSeats fault k seats grid = some seats' → Appended seats seats' grid := by
  induction grid with
  | nil =>
    intro k seats seats' h
    cases h
    exact ⟨fun _ _ h => h, fun _ _ h => Or.inl h, by simp⟩
  | cons seat grid ih =>
    intro k seats seats' h
    obtain ⟨⟨t, r⟩, hins, hrest⟩ := Option.bind_eq_some_iff.mp h
    have hkeep : ∀ id b, seats.get? id = some b → t.get? id = some b :=
      fun id b hb => insertRecord_keeps hins hb
    have hnew : ∀ id b, t.get? id = some b → seats.get? id = some b ∨ id = seats.nextId ∧ b = seat :=
      fun id b hb => insertRecord_get? hins hb
    obtain ⟨ihkeep, ihnew, ihrecords⟩ := ih hrest
    refine ⟨fun id b hb => ihkeep id b (hkeep id b hb), fun id b hb => ?_, ?_⟩
    · rcases ihnew id b hb with hb | hb
      · rcases hnew id b hb with hb | ⟨-, rfl⟩
        · exact Or.inl hb
        · exact Or.inr List.mem_cons_self
      · exact Or.inr (List.mem_cons_of_mem _ hb)
    · rw [hf k] at hins
      unfold insertRecord at hins
      split at hins
      · rename_i heq
        cases heq
      · split at hins
        · cases hins
          rw [ihrecords, OTable.rows_insert, List.map_append, List.append_assoc]
          rfl
        · cases hins

/-- A creation when nothing fails: refused, or the event and its seats are there. -/
theorem eventMgrCreateEvent_spec {libc : FloatLibc} {events events' : OTable EventRow}
    {seats seats' : OTable SeatRecord} {name venue date time : CStr}
    {organizerId totalRows seatsPerRow : Nat} {price : Float32} {fault : Nat → TableFault}
    {rc : EtpResult} {out : Option Nat} (hf : ∀ k, fault k = .none)
    (h : eventMgrCreateEvent libc events seats name venue date time organizerId totalRows
      seatsPerRow price fault = some (events', seats', rc, out)) :
    (events' = events ∧ seats' = seats) ∨
      ∃ evt, events' = events.insert evt ∧ evt.totalRows = totalRows ∧ evt.seatsPerRow = seatsPerRow ∧
        totalRows ≤ MAX_SEAT_ROWS ∧ seatsPerRow ≤ MAX_SEATS_PER_ROW ∧
        Appended seats seats' (seatGrid events.nextId totalRows seatsPerRow) := by
  unfold eventMgrCreateEvent at h
  split at h
  · cases h
    exact Or.inl ⟨rfl, rfl⟩
  · split at h
    · cases h
      exact Or.inl ⟨rfl, rfl⟩
    · rename_i hrows
      split at h
      · cases h
        exact Or.inl ⟨rfl, rfl⟩
      · rename_i hcols
        obtain ⟨⟨t, r⟩, hins, hr⟩ := Option.bind_eq_some_iff.mp h
        cases r with
        | error rc =>
          rw [hf 0] at hins
          unfold insertRecord at hins
          split at hins
          · rename_i heq
            cases heq
          · split at hins <;> cases hins
        | ok eventId =>
          obtain ⟨rfl, rfl⟩ := insertRecord_ok hins
          obtain ⟨seats'', hseats, hs⟩ := Option.map_eq_some_iff.mp hr
          cases hs
          exact Or.inr ⟨_, rfl, rfl, rfl, by omega, by omega, insertSeats_spec hf hseats⟩

/-! ## Counting -/

section Count

variable {db : Db} {e : Nat}

end Count

/-! ## The invariant -/

/-- How many seats the table has for an event. -/
def seatCountOf (seatEvents : OTable Nat) (e : Nat) : Nat := seatEvents.rows.countP (fun r => r.2 == e)

/-- Nothing is under way and the tables agree; every live event has its grid of seats, small enough
for a report, and no seat is of an event yet to come. -/
structure RevenueInv (s : Server) : Prop where
  rested : Rested s.shared
  grid : ∀ e row, s.events.get? e = some row →
    seatCountOf s.shared.db.seatEvents e = row.totalRows * row.seatsPerRow ∧
      row.totalRows ≤ MAX_SEAT_ROWS ∧ row.seatsPerRow ≤ MAX_SEATS_PER_ROW
  old : ∀ t e, s.shared.db.seatEvents.get? t = some e → e < s.events.nextId

theorem revenueInv_empty (users : OTable UserRecord) (auth : AuthManager) (stats : ServerStats) :
    RevenueInv (Server.empty users auth stats) where
  rested :=
    ⟨Sim.init _, restInv_init rfl rfl (fun t seat hg => by cases hg),
      ⟨(fun b r t seat hr => by cases hr), fun b => List.nodup_nil⟩⟩
  grid := fun e row he => by cases he
  old := fun t e he => by cases he

section Steps

variable {s : Server}

theorem Server.shared_withShared {sh : Shared} (h : sh.db.events = s.shared.db.events) :
    (s.withShared sh).shared = sh := by
  have hev : s.events.map EventRow.record = sh.db.events := h.symm
  simp only [Server.shared, Server.withShared, hev]

/-- A call of the booking engine. -/
theorem RevenueInv.call (h : RevenueInv s) {c : Call} {now : Int} {fs : List EngineFault}
    (hfs : ∀ f ∈ fs, f.FineFor c) {sh : Shared} {rc : EtpResult} {out : Option Nat}
    (hrun : runCall c now fs s.shared c.entry = some (sh, rc, out)) :
    RevenueInv (s.withShared sh) := by
  obtain ⟨hrested, hevents, hseats⟩ := h.rested.call hfs hrun
  have hshared : (s.withShared sh).shared = sh := Server.shared_withShared hevents
  have hsame : (s.withShared sh).shared.db.seatEvents = s.shared.db.seatEvents := by
    rw [hshared]
    exact hseats
  refine ⟨by rw [hshared]; exact hrested, ?_, ?_⟩
  · intro e row he
    rw [hsame]
    exact h.grid e row he
  · intro t e he
    rw [hsame] at he
    exact h.old t e he

theorem seatCountOf_eq (seats : OTable SeatRecord) (e : Nat) :
    seatCountOf (seats.map SeatRecord.eventId) e =
      (seats.rows.map Prod.snd).countP (fun seat => seat.eventId == e) := by
  unfold seatCountOf OTable.map
  rw [List.countP_map, List.countP_map]
  rfl

/-- A creation adds the seats of the new event and of no other. -/
theorem RevenueInv.create (h : RevenueInv s) {evt : EventRow} {seats : OTable SeatRecord}
    (hrows : evt.totalRows ≤ MAX_SEAT_ROWS) (hcols : evt.seatsPerRow ≤ MAX_SEATS_PER_ROW)
    (happ : Appended s.seats seats (seatGrid s.events.nextId evt.totalRows evt.seatsPerRow)) :
    RevenueInv { s with events := s.events.insert evt, seats := seats } := by
  have hcount : ∀ e, seatCountOf (seats.map SeatRecord.eventId) e =
      seatCountOf s.shared.db.seatEvents e +
        if e = s.events.nextId then evt.totalRows * evt.seatsPerRow else 0 := by
    intro e
    rw [seatCountOf_eq, happ.records, List.countP_append, ← seatCountOf_eq]
    congr 1
    split
    · rename_i he
      rw [← length_seatGrid s.events.nextId, List.countP_eq_length]
      intro seat hseat
      rw [(mem_seatGrid hseat).1, he, beq_self_eq_true]
    · rename_i he
      rw [List.countP_eq_zero]
      intro seat hseat
      rw [(mem_seatGrid hseat).1, beq_iff_eq]
      exact fun heq => he heq.symm
  have hnone : seatCountOf s.shared.db.seatEvents s.events.nextId = 0 := by
    rw [seatCountOf, List.countP_eq_zero]
    rintro ⟨t, e⟩ hmem he
    have hlt := h.old t e (OTable.mem_iff.mp hmem)
    rw [beq_iff_eq] at he
    omega
  refine ⟨?_, ?_, ?_⟩
  · refine h.rested.tables ((s.events.insert evt).map EventRow.record) happ.keep ?_
    intro t seat hg hb
    rcases happ.new t seat hg with hold | hgrid
    · exact hold
    · rw [(mem_seatGrid hgrid).2.1] at hb
      cases hb
  · intro e row he
    show seatCountOf (seats.map SeatRecord.eventId) e = _ ∧ _
    rw [hcount]
    rcases eq_or_ne e s.events.nextId with rfl | hne
    · have hrow : (s.events.insert evt).get? s.events.nextId = some row := he
      rw [OTable.get?_insert_self, Option.some.injEq] at hrow
      subst hrow
      rw [hnone, if_pos rfl, Nat.zero_add]
      exact ⟨rfl, hrows, hcols⟩
    · have hrow : (s.events.insert evt).get? e = some row := he
      rw [OTable.get?_insert_ne hne] at hrow
      rw [if_neg hne, Nat.add_zero]
      exact h.grid e row hrow
  · intro t e he
    show e < s.events.nextId + 1
    have hmap : (seats.get? t).map SeatRecord.eventId = some e := by
      rw [← OTable.get?_map]
      exact he
    obtain ⟨seat, hg, rfl⟩ := Option.map_eq_some_iff.mp hmap
    rcases happ.new t seat hg with hold | hgrid
    · have hlt := h.old t seat.eventId (by
        show (s.seats.map SeatRecord.eventId).get? t = _
        rw [OTable.get?_map, hold]
        rfl)
      omega
    · rw [(mem_seatGrid hgrid).1]
      exact Nat.lt_succ_self _

/-- A deletion leaves the seats and the other events alone. -/
theorem RevenueInv.delete (h : RevenueInv s) (eventId : Nat) :
    RevenueInv { s with events := (eventMgrDeleteEvent s.events eventId .none).1 } := by
  have hnext : (eventMgrDeleteEvent s.events eventId .none).1.nextId = s.events.nextId := by
    unfold eventMgrDeleteEvent deleteRecord
    cases s.events.get? eventId <;> rfl
  refine ⟨?_, ?_, ?_⟩
  · exact h.rested.tables ((eventMgrDeleteEvent s.events eventId .none).1.map EventRow.record)
      (fun _ _ hg => hg) (fun _ _ hg _ => hg)
  · intro e row he
    exact h.grid e row (deleteRecord_sub he)
  · intro t e he
    show e < (eventMgrDeleteEvent s.events eventId .none).1.nextId
    rw [hnext]
    exact h.old t e he

/-- What a request asks of the steps of its call. -/
theorem TicketOp.StorageFine.book {userId eventId : Nat} {seatIds : List Nat} {now : Int}
    {faults : List EngineFault} (hf : (TicketOp.book userId eventId seatIds now faults).StorageFine) :
    ∀ f ∈ faults, f.FineFor (.book userId eventId seatIds) :=
  fun f hmem => ⟨hf f hmem, fun hcancel => by cases hcancel⟩

theorem TicketOp.StorageFine.cancel {bookingId userId : Nat} {now : Int} {faults : List EngineFault}
    (hf : (TicketOp.cancel bookingId userId now faults).StorageFine)
    (hlocks : (TicketOp.cancel bookingId userId now faults).CancelLocks) :
    ∀ f ∈ faults, f.FineFor (.cancel bookingId userId) :=
  fun f hmem => ⟨hf f hmem, fun _ => hlocks f hmem⟩

/-- **Every request** with working storage keeps the invariant, if a cancellation gets its locks. -/
theorem revenueInv_step {libc : FloatLibc} {s' : Server} {op : TicketOp} (h : RevenueInv s)
    (hf : op.StorageFine) (hlocks : op.CancelLocks) (hs : ticketStep libc s op = some s') :
    RevenueInv s' := by
  cases op with
  | create name venue date time organizerId totalRows seatsPerRow price fault =>
    obtain ⟨⟨events, seats, rc, out⟩, hcreate, rfl⟩ := Option.map_eq_some_iff.mp hs
    rcases eventMgrCreateEvent_spec hf hcreate with
      ⟨rfl, rfl⟩ | ⟨evt, rfl, rfl, rfl, hrows, hcols, happ⟩
    · exact h
    · exact h.create hrows hcols happ
  | delete eventId fault =>
    cases hf
    cases hs
    exact h.delete eventId
  | book userId eventId seatIds now faults =>
    obtain ⟨⟨sh, rc, out⟩, hrun, rfl⟩ := Option.map_eq_some_iff.mp hs
    exact h.call hf.book hrun
  | cancel bookingId userId now faults =>
    obtain ⟨⟨sh, rc, out⟩, hrun, rfl⟩ := Option.map_eq_some_iff.mp hs
    exact h.call (hf.cancel hlocks) hrun

end Steps

/-! ## Whole runs -/

end Ticketing
