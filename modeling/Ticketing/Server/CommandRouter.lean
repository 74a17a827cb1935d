import Ticketing.Auth.Auth
import Ticketing.Protocol.Parser
import Ticketing.Core.Reports
import Ticketing.Core.BookingSequential
import Ticketing.Ipc.Stats

/-!
# Command router (`server/main.c`)

`handle_command` with every command it routes, on the state that the clients share.  A command runs
to its end; what storage does to each of its table calls comes with it.

* `Server` — the tables, the lock and transaction managers, the sessions and the statistics.
* `ResponseBuffer` — the response as the `snprintf` loops build it, with the running offset.
* `handleCommand` — the router; each `handle…` is one case of its `switch`.
-/

set_option autoImplicit false

namespace Ticketing

open CText

/-- The state of `server_context_t` that the commands use. -/
structure Server where
  users : OTable UserRecord
  events : OTable EventRow
  seats : OTable SeatRecord
  bookings : OTable BookingRecord
  bookingSeats : OTable BookingSeatRecord
  locks : LockManager
  tm : TxnManager
  auth : AuthManager
  stats : ServerStats

namespace Server

/-- What the booking engine works on. -/
def shared (s : Server) : Shared :=
  ⟨⟨s.events.map EventRow.record, s.seats, s.bookings, s.bookingSeats⟩, s.locks, s.tm⟩

/-- The server after a call of the booking engine. -/
def withShared (s : Server) (sh : Shared) : Server :=
  { s with
    seats := sh.db.seats, bookings := sh.db.bookings, bookingSeats := sh.db.bookingSeats,
    locks := sh.locks, tm := sh.tm }

end Server

/-- What a command finds outside the server: the time, and what happens to its table calls, to the steps of its
booking engine call and to its `malloc`s. -/
structure CmdEnv where
  now : Int
  fault : Nat → TableFault
  engine : List EngineFault
  memory : Nat → Bool

/-! ## Responses -/

/-- A response under construction: the bytes in the buffer and the sum of the `snprintf` results. -/
structure ResponseBuffer where
  out : CStr
  off : Nat

namespace ResponseBuffer

/-- The first `snprintf`. -/
def start (s : CStr) : ResponseBuffer := ⟨strlcpy MAX_RESPONSE_SIZE s, s.length⟩

/-- `off += snprintf(response + off, resp_size - off, ...)`. -/
def add (b : ResponseBuffer) (s : CStr) : ResponseBuffer :=
  ⟨b.out ++ s.take (MAX_RESPONSE_SIZE - b.off - 1), b.off + s.length⟩

/-- The loop over the rows, which stops within `slack` bytes of the end. -/
def addRows (b : ResponseBuffer) (slack : Nat) (rows : List CStr) : ResponseBuffer :=
  rows.foldl (fun b row => if b.off < MAX_RESPONSE_SIZE - slack then b.add row else b) b

end ResponseBuffer

/-- `format_response(response, resp_size, RESP_OK, ...)`. -/
def okResponse (payload : CStr) : CStr := formatResponse MAX_RESPONSE_SIZE .ok payload

/-- `format_response(response, resp_size, RESP_ERROR, ...)`. -/
def errorResponse (payload : CStr) : CStr := formatResponse MAX_RESPONSE_SIZE .error payload

/-- `format_response(response, resp_size, RESP_DENIED, ...)`. -/
def deniedResponse (payload : CStr) : CStr := formatResponse MAX_RESPONSE_SIZE .denied payload

/-- `(uint32_t)atoi(s)`. -/
def idArg (s : CStr) : Nat := toUInt32 (atoi s)

/-! ## The commands -/

section Commands

variable (libc : FloatLibc) (env : CmdEnv) (s : Server) (slot : Fin MAX_CONNECTIONS)
  (cmd : ParsedCommand)

/-- The role a `REGISTER` command asks for; `none` if there is no such role. -/
def registerRole (cmd : ParsedCommand) : Option UserRole :=
  if cmd.argc ≥ 3 then
    if strcasecmpEq (cmd.arg 2) (text "organizer") || strcasecmpEq (cmd.arg 2) (text "organiser") then
      some .organizer
    else if strcasecmpEq (cmd.arg 2) (text "customer") then some .customer
    else none
  else some .customer

/-- `CMD_REGISTER`. -/
def handleRegister : Option (Server × CStr) :=
  if cmd.argc < 2 then
    some (s, errorResponse (text "Usage: REGISTER <username> <password> [customer|organizer]"))
  else
    match registerRole cmd with
    | none => some (s, errorResponse (text "Invalid role. Must be 'customer' or 'organizer'"))
    | some role =>
      if role = .organizer ∧ (s.auth.sessions slot).role ≠ .admin then
        some (s, deniedResponse (text "Only an admin may create organizer accounts"))
      else
        (authRegister s.users (cmd.arg 0) (cmd.arg 1) role env.now (env.fault 0) (env.fault 1)).map
          fun r =>
            ({ s with users := r.1 },
              if r.2.1 = .ok then
                okResponse (text "Registered user '" ++ cmd.arg 0 ++ text "' (ID: " ++
                  decimal (r.2.2.getD 0) ++ text ", Role: " ++
                  (if role = .organizer then text "ORGANIZER" else text "CUSTOMER") ++ text ")")
              else if r.2.1 = .errDuplicate then
                errorResponse (text "Username '" ++ cmd.arg 0 ++ text "' already taken")
              else errorResponse (text "Registration failed"))

/-- `CMD_LOGIN`. -/
def handleLogin : Option (Server × CStr) :=
  let session := s.auth.sessions slot
  if cmd.argc < 2 then some (s, errorResponse (text "Usage: LOGIN <username> <password>"))
  else if session.authenticated then
    some (s, errorResponse (text "Already logged in as '" ++ session.username ++
      text "'. LOGOUT first."))
  else
    let r := authLogin s.auth s.users session.fd (cmd.arg 0) (cmd.arg 1) (env.fault 0)
    if r.2 = .ok then
      let session := r.1.sessions slot
      some ({ s with auth := r.1 },
        okResponse (text "Welcome, " ++ session.username ++ text "! (Role: " ++
          (match session.role with
            | .admin => text "ADMIN"
            | .organizer => text "ORGANIZER"
            | _ => text "CUSTOMER") ++ text ")"))
    else
      some ({ s with auth := r.1, stats := s.stats.incFailedRequests },
        errorResponse (text "Invalid credentials"))

/-- `CMD_LOGOUT`. -/
def handleLogout : Option (Server × CStr) :=
  let r := authLogout s.auth (s.auth.sessions slot).fd
  some ({ s with auth := r.1 },
    if r.2 = .ok then okResponse (text "Logged out successfully")
    else errorResponse (text "Not logged in"))

/-- `CMD_CREATE_EVENT`. -/
def handleCreateEvent : Option (Server × CStr) :=
  if cmd.argc < 7 then
    some (s, errorResponse
      (text "Usage: CREATE_EVENT <name> <venue> <date> <time> <rows> <seats_per_row> <price>"))
  else
    (eventMgrCreateEvent libc s.events s.seats (cmd.arg 0) (cmd.arg 1) (cmd.arg 2) (cmd.arg 3)
      (s.auth.sessions slot).userId (toUInt16 (atoi (cmd.arg 4))) (toUInt16 (atoi (cmd.arg 5)))
      (libc.atof (cmd.arg 6)) env.fault).map fun r =>
        let s' : Server := { s with events := r.1, seats := r.2.1 }
        if r.2.2.1 = .ok then
          ({ s' with stats := s.stats.incEvents },
            okResponse (text "Event '" ++ cmd.arg 0 ++ text "' created (ID: " ++
              decimal (r.2.2.2.getD 0) ++ text ", " ++
              decimalInt (toCInt (atoi (cmd.arg 4) * atoi (cmd.arg 5))) ++ text " seats)"))
        else (s', errorResponse (text "Failed to create event"))

/-- `CMD_DELETE_EVENT`. -/
def handleDeleteEvent : Option (Server × CStr) :=
  let session := s.auth.sessions slot
  if cmd.argc < 1 then some (s, errorResponse (text "Usage: DELETE_EVENT <event_id>"))
  else
    let eid := idArg (cmd.arg 0)
    match eventMgrGetEvent s.events eid (env.fault 0) with
    | .error _ => some (s, errorResponse (text "Event not found"))
    | .ok event =>
      if session.role ≠ .admin ∧ event.organizerId ≠ session.userId then
        some (s, deniedResponse (text "You may only delete your own events"))
      else
        let r := eventMgrDeleteEvent s.events eid (env.fault 1)
        some ({ s with events := r.1 },
          if r.2 = .ok then okResponse (text "Event " ++ decimal eid ++ text " deleted")
          else errorResponse (text "Event not found"))

/-- One line of `LIST_EVENTS`. -/
def eventLine (libc : FloatLibc) (r : Nat × EventRow) : CStr :=
  text "  " ++ padRight 5 (decimal r.1) ++ text " " ++ padRight 20 (r.2.name.take 20) ++ text " " ++
    padRight 15 (r.2.venue.take 15) ++ text " " ++ padRight 11 r.2.eventDate ++ text " " ++
    padRight 5 r.2.eventTime ++ text "  " ++ decimal r.2.totalRows ++ text "×" ++
    padRight 3 (decimal r.2.seatsPerRow) ++ text "  " ++ libc.fixed 0 r.2.price ++ text "\n"

/-- `CMD_LIST_EVENTS`. -/
def handleListEvents : CStr :=
  let events := eventMgrListEvents s.events 50 (env.fault 0)
  if events.length = 0 then okResponse (text "No active events")
  else
    ((ResponseBuffer.start (text "OK " ++ decimal events.length ++ text " active event(s):\n" ++
      text "  " ++ padRight 5 (text "ID") ++ text " " ++ padRight 20 (text "Name") ++ text " " ++
      padRight 15 (text "Venue") ++ text " " ++ padRight 11 (text "Date") ++ text " " ++
      padRight 5 (text "Time") ++ text "  " ++ padRight 6 (text "Seats") ++ text "  Rs.\n" ++
      text "  ───── ──────────────────── ─────────────── ─────────── ─────  ──────  ────\n")).addRows
      100 (events.map (eventLine libc))).out

/-- `CMD_VIEW_EVENT`. -/
def handleViewEvent : CStr :=
  if cmd.argc < 1 then errorResponse (text "Usage: VIEW_EVENT <event_id>")
  else
    let eid := idArg (cmd.arg 0)
    match eventMgrGetEvent s.events eid (env.fault 0) with
    | .error _ => errorResponse (text "Event not found")
    | .ok evt =>
      strlcpy MAX_RESPONSE_SIZE
        (text "OK Event Details:\n" ++ text "  ID:      " ++ decimal eid ++ text "\n" ++
          text "  Name:    " ++ evt.name ++ text "\n" ++ text "  Venue:   " ++ evt.venue ++
          text "\n" ++ text "  Date:    " ++ evt.eventDate ++ text "  Time: " ++ evt.eventTime ++
          text "\n" ++ text "  Seats:   " ++ decimal evt.totalRows ++ text " rows × " ++
          decimal evt.seatsPerRow ++ text " per row = " ++
          decimal (evt.totalRows * evt.seatsPerRow) ++ text " total\n" ++ text "  Price:   Rs. " ++
          libc.fixed 2 evt.price ++ text "\n" ++ text "  Status:  " ++
          (if evt.status = .active then text "ACTIVE" else text "CANCELLED") ++ text "\n")

/-- One line of `VIEW_SEATS`. -/
def seatLine (r : Nat × SeatRecord) : CStr :=
  text "  " ++ padRight 6 (decimal r.1) ++ text " " ++ [r.2.rowLabel] ++
    padRight 4 (decimal r.2.seatNumber.toNat) ++ text " " ++
    padRight 8 (match r.2.status with
      | .available => text "AVAIL"
      | .booked => text "BOOKED"
      | .locked => text "LOCKED") ++ text "\n"

/-- `CMD_VIEW_SEATS`. -/
def handleViewSeats : CStr :=
  if cmd.argc < 1 then errorResponse (text "Usage: VIEW_SEATS <event_id>")
  else if !env.memory 0 then errorResponse (text "Out of memory")
  else
    let eid := idArg (cmd.arg 0)
    let seats := eventMgrGetSeats s.seats eid MAX_REPORT_SEATS (env.fault 0)
    if seats.length = 0 then errorResponse (text "No seats found")
    else
      ((ResponseBuffer.start (text "OK Seats for event " ++ decimal eid ++ text " (" ++
        decimal seats.length ++ text " total):\n" ++ text "  " ++ padRight 6 (text "SeatID") ++
        text " " ++ padRight 5 (text "Seat") ++ text " " ++ padRight 8 (text "Status") ++ text "\n" ++
        text "  ────── ───── ────────\n")).addRows 60 (seats.map seatLine)).out

/-- The seat ids of a `BOOK` command: at most `MAX_SEATS_PER_BOOKING` arguments after the first. -/
def bookSeatIds (cmd : ParsedCommand) : List Nat :=
  ((cmd.args.drop 1).take MAX_SEATS_PER_BOOKING).map idArg

/-- `CMD_BOOK`. -/
def handleBook : Option (Server × CStr) :=
  if cmd.argc < 2 then
    some (s, errorResponse (text "Usage: BOOK <event_id> <seat_id1> [seat_id2] ..."))
  else
    let seatIds := bookSeatIds cmd
    (bookingBookSeats s.shared (s.auth.sessions slot).userId (idArg (cmd.arg 0)) seatIds env.now
      env.engine).map fun r =>
        let s' := s.withShared r.1
        match r.2.1 with
        | .ok =>
          ({ s' with stats := s.stats.incBookings },
            okResponse (text "Booking confirmed! (Booking ID: " ++ decimal (r.2.2.getD 0) ++
              text ", " ++ decimal seatIds.length ++ text " seats)"))
        | .errSeatUnavail => (s', errorResponse (text "One or more seats are not available"))
        | .errNotFound => (s', errorResponse (text "Event or seat not found"))
        | _ => (s', errorResponse (text "Booking failed"))

/-- `CMD_CANCEL`. -/
def handleCancel : Option (Server × CStr) :=
  if cmd.argc < 1 then some (s, errorResponse (text "Usage: CANCEL <booking_id>"))
  else
    let bid := idArg (cmd.arg 0)
    (bookingCancel s.shared bid (s.auth.sessions slot).userId env.now env.engine).map fun r =>
      let s' := s.withShared r.1
      match r.2.1 with
      | .ok =>
        ({ s' with stats := s.stats.incCancelledBookings },
          okResponse (text "Booking " ++ decimal bid ++ text " cancelled, seats released"))
      | .errAuth => (s', errorResponse (text "You can only cancel your own bookings"))
      | _ => (s', errorResponse (text "Cancellation failed"))

/-- One line of `MY_BOOKINGS`. -/
def bookingLine (libc : FloatLibc) (r : Nat × BookingRecord) : CStr :=
  text "  " ++ padRight 8 (decimal r.1) ++ text " " ++ padRight 8 (decimal r.2.eventId) ++
    text " " ++ padRight 6 (decimal r.2.seatCount) ++ text " Rs." ++
    libc.fixed 2 r.2.totalAmount ++ text "\n"

/-- `CMD_MY_BOOKINGS`. -/
def handleMyBookings : CStr :=
  let bookings := bookingListByUser s.bookings (s.auth.sessions slot).userId 20 (env.fault 0)
  if bookings.length = 0 then okResponse (text "No active bookings")
  else
    ((ResponseBuffer.start (text "OK Your bookings (" ++ decimal bookings.length ++ text "):\n" ++
      text "  " ++ padRight 8 (text "BookID") ++ text " " ++ padRight 8 (text "EventID") ++
      text " " ++ padRight 6 (text "Seats") ++ text " " ++ padRight 10 (text "Amount") ++
      text "\n" ++ text "  ──────── ──────── ────── ──────────\n")).addRows 60
      (bookings.map (bookingLine libc))).out

/-- `CMD_REVENUE`. -/
def handleRevenue : CStr :=
  if cmd.argc ≥ 1 then
    match reportsEventRevenue s.events s.seats (idArg (cmd.arg 0)) (env.fault 0) (env.fault 1)
        (env.memory 0) with
    | .ok rev => okResponse (text "\n" ++ reportsFormatRevenue libc rev 512)
    | .error _ => errorResponse (text "Event not found")
  else
    let revs := reportsOrganizerRevenue s.events s.seats (s.auth.sessions slot).userId 20 env.fault env.memory
    if revs.length = 0 then okResponse (text "No events found")
    else
      ((ResponseBuffer.start (text "OK Revenue for your events:\n")).addRows 200
        (revs.map fun rev => reportsFormatRevenue libc rev 512 ++ text "\n")).out

/-- One line of `LIST_USERS`. -/
def userLine (r : Nat × UserRecord) : CStr :=
  text "  " ++ padRight 5 (decimal r.1) ++ text " " ++ padRight 20 r.2.username ++ text " " ++
    padRight 10 (roleName r.2.role) ++ text "\n"

/-- `CMD_LIST_USERS`. -/
def handleListUsers : CStr :=
  let users := scanRecords s.users (fun _ => true) 50 (env.fault 0)
  if users.length = 0 then okResponse (text "No users")
  else
    ((ResponseBuffer.start (text "OK " ++ decimal users.length ++ text " user(s):\n" ++ text "  " ++
      padRight 5 (text "ID") ++ text " " ++ padRight 20 (text "Username") ++ text " " ++
      padRight 10 (text "Role") ++ text "\n" ++
      text "  ───── ──────────────────── ──────────\n")).addRows 60 (users.map userLine)).out

/-- `CMD_HELP`. -/
def handleHelp (role : UserRole) : CStr :=
  let b := ResponseBuffer.start
    (text "OK Available commands (role: " ++ roleName role ++ text "):\n" ++
      text "  ── Auth ─────────────────────────────────────────────\n" ++
      text "  REGISTER <user> <pass> [customer|organizer]\n" ++ text "  LOGIN    <user> <pass>\n" ++
      text "  LOGOUT\n" ++ text "  ── Events ───────────────────────────────────────────\n" ++
      text "  LIST_EVENTS\n" ++ text "  VIEW_EVENT  <event_id>\n" ++ text "  VIEW_SEATS  <event_id>\n")
  let b := if role = .organizer ∨ role = .admin then
      b.add (text "  CREATE_EVENT <name> <venue> <date> <time> <rows> <seats_per_row> <price>\n" ++
        text "  DELETE_EVENT <event_id>\n")
    else b
  let b := if role ≠ .guest then
      b.add (text "  ── Booking ──────────────────────────────────────────\n" ++
        text "  BOOK     <event_id> <seat_id1> [seat_id2] ...\n" ++ text "  CANCEL   <booking_id>\n" ++
        text "  MY_BOOKINGS\n")
    else b
  let b := if role = .organizer ∨ role = .admin then
      b.add (text "  ── Reports ──────────────────────────────────────────\n" ++
        text "  REVENUE  [event_id]\n")
    else b
  let b := if role = .admin then
      b.add (text "  ── Admin ────────────────────────────────────────────\n" ++
        text "  LIST_USERS\n" ++ text "  SYSTEM_STATS\n")
    else b
  (b.add (text "  ── General ──────────────────────────────────────────\n" ++ text "  HELP\n" ++
    text "  QUIT\n")).out

/-- `handle_command`; `none` if a call of it does not come to an end. -/
def handleCommand : Option (Server × CStr) :=
  match cmd.type with
  | .register => handleRegister env s slot cmd
  | .login => handleLogin env s slot cmd
  | .logout => handleLogout s slot
  | .createEvent => handleCreateEvent libc env s slot cmd
  | .deleteEvent => handleDeleteEvent env s slot cmd
  | .listEvents => some (s, handleListEvents libc env s)
  | .viewEvent => some (s, handleViewEvent libc env s cmd)
  | .viewSeats => some (s, handleViewSeats env s cmd)
  | .book => handleBook env s slot cmd
  | .cancel => handleCancel env s slot cmd
  | .myBookings => some (s, handleMyBookings libc env s slot)
  | .revenue => some (s, handleRevenue libc env s slot cmd)
  | .listUsers => some (s, handleListUsers env s)
  | .systemStats => some (s, s.stats.format env.now MAX_RESPONSE_SIZE)
  | .help => some (s, handleHelp (s.auth.sessions slot).role)
  | .quit => some (s, errorResponse (text "Unknown command. Type HELP for usage."))
  | .unknown => some (s, errorResponse (text "Unknown command. Type HELP for usage."))

end Commands

end Ticketing
