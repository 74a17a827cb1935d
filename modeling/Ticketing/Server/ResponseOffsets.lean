import Ticketing.Server.CommandRouter
import Mathlib.Data.List.Chain

/-!
# The running offset of a response

`handle_command` builds its long responses with `off += snprintf(response + off, resp_size - off, ...)`,
and `snprintf` returns the length of the whole text, cut or not.

* `SnprintfCall`, `Accumulates` — the calls that build a response, and how the offset runs.
* `ListingFormat`, `ListingFormat.print` — the shape of the five listings; each handler is an instance.
* `snprintfCalls` — the calls of a command.
* `response_offsets_inside` — they make the response, each of them inside the buffer.
-/

set_option autoImplicit false

namespace Ticketing

open CText

/-! ## Calls of `snprintf` -/

/-- One call: the offset at which it prints, and the whole text. -/
structure SnprintfCall where
  off : Nat
  line : CStr

/-- The bytes that the call leaves in front of the NUL. -/
def SnprintfCall.written (c : SnprintfCall) : CStr := c.line.take (MAX_RESPONSE_SIZE - c.off - 1)

/-- The first call prints at the beginning, each other one where the offset has come to. -/
def Accumulates (calls : List SnprintfCall) : Prop :=
  calls.head?.map SnprintfCall.off = some 0 ∧
    calls.IsChain fun c d => d.off = c.off + c.line.length

namespace ResponseBuffer

/-- A loop over rows that stops when there is no room. -/
def fill (room : Nat → Prop) [DecidablePred room] (b : ResponseBuffer) (rows : List CStr) :
    ResponseBuffer :=
  rows.foldl (fun b row => if room b.off then b.add row else b) b

/-- Its calls. -/
def calls (room : Nat → Prop) [DecidablePred room] : List CStr → ResponseBuffer → List SnprintfCall
  | [], _ => []
  | row :: rows, b => if room b.off then ⟨b.off, row⟩ :: calls room rows (b.add row) else []

section Loop

variable {room : Nat → Prop} [DecidablePred room]

theorem fill_stop {b : ResponseBuffer} (h : ¬ room b.off) (rows : List CStr) :
    b.fill room rows = b := by
  induction rows with
  | nil => rfl
  | cons row rows ih =>
    have hstep : b.fill room (row :: rows) = (if room b.off then b.add row else b).fill room rows := rfl
    rw [hstep, if_neg h, ih]

/-- The loop writes what its calls leave in the buffer. -/
theorem fill_out (rows : List CStr) : ∀ b : ResponseBuffer,
    (b.fill room rows).out = b.out ++ ((calls room rows b).map SnprintfCall.written).flatten := by
  induction rows with
  | nil =>
    intro b
    exact (List.append_nil _).symm
  | cons row rows ih =>
    intro b
    have hstep : b.fill room (row :: rows) = (if room b.off then b.add row else b).fill room rows := rfl
    rw [hstep, calls]
    split
    · rw [ih, List.map_cons, List.flatten_cons, ← List.append_assoc]
      rfl
    · rename_i h
      rw [fill_stop h]
      exact (List.append_nil _).symm

/-- Behind a call that has moved the offset to where the loop begins. -/
theorem calls_chain (rows : List CStr) : ∀ {b : ResponseBuffer} {c : SnprintfCall},
    b.off = c.off + c.line.length →
      (c :: calls room rows b).IsChain fun c d => d.off = c.off + c.line.length := by
  induction rows with
  | nil =>
    intro b c _
    exact List.isChain_singleton c
  | cons row rows ih =>
    intro b c hb
    rw [calls]
    split
    · exact List.isChain_cons_cons.mpr ⟨hb, ih rfl⟩
    · exact List.isChain_singleton c

/-- Each call of the loop found room. -/
theorem room_of_mem_calls (rows : List CStr) : ∀ {b : ResponseBuffer} {c : SnprintfCall},
    c ∈ calls room rows b → room c.off := by
  induction rows with
  | nil =>
    intro b c hc
    cases hc
  | cons row rows ih =>
    intro b c hc
    rw [calls] at hc
    split at hc
    · rename_i hroom
      rcases List.mem_cons.mp hc with rfl | hc
      · exact hroom
      · exact ih hc
    · cases hc

/-- A header and rows, with the call for the header. -/
theorem start_fill (room : Nat → Prop) [DecidablePred room] (header : CStr) (rows : List CStr) :
    ((start header).fill room rows).out =
        ((⟨0, header⟩ :: calls room rows (start header)).map SnprintfCall.written).flatten ∧
      Accumulates (⟨0, header⟩ :: calls room rows (start header)) := by
  refine ⟨?_, rfl, calls_chain rows (Nat.zero_add _).symm⟩
  rw [fill_out, List.map_cons, List.flatten_cons]
  rfl

end Loop

end ResponseBuffer

/-! ## Listings -/

/-- How a command lists records: the response when there is none, the header, one row for each record,
and how far from the end of the buffer the loop stops. -/
structure ListingFormat (β : Type) where
  empty : CStr
  header : Nat → CStr
  row : β → CStr
  slack : Nat

namespace ListingFormat

variable {β : Type} (F : ListingFormat β)

/-- The response for these records. -/
def print (records : List β) : CStr :=
  if records.length = 0 then F.empty
  else ((ResponseBuffer.start (F.header records.length)).addRows F.slack (records.map F.row)).out

/-- The calls that print it; without records there is no loop. -/
def calls (records : List β) : List SnprintfCall :=
  if records.length = 0 then []
  else ⟨0, F.header records.length⟩ ::
    ResponseBuffer.calls (· < MAX_RESPONSE_SIZE - F.slack) (records.map F.row)
      (ResponseBuffer.start (F.header records.length))

/-- The response is what the calls have written. -/
theorem print_calls (records : List β) : F.calls records = [] ∨
    F.print records = ((F.calls records).map SnprintfCall.written).flatten ∧
      Accumulates (F.calls records) := by
  unfold print calls
  split
  · exact Or.inl rfl
  · exact Or.inr (ResponseBuffer.start_fill (· < MAX_RESPONSE_SIZE - F.slack) _ _)

/-- Each call prints inside the buffer. -/
theorem calls_inside {records : List β} {c : SnprintfCall} (h : c ∈ F.calls records) :
    c.off < MAX_RESPONSE_SIZE := by
  unfold calls at h
  split at h
  · cases h
  · rcases List.mem_cons.mp h with rfl | h
    · exact Nat.zero_lt_succ _
    · have hroom := ResponseBuffer.room_of_mem_calls _ h
      exact Nat.lt_of_lt_of_le hroom (Nat.sub_le _ _)

end ListingFormat

section Formats

variable (libc : FloatLibc) (env : CmdEnv) (s : Server) (slot : Fin MAX_CONNECTIONS)
  (cmd : ParsedCommand)

/-- `LIST_EVENTS`. -/
def eventListing : ListingFormat (Nat × EventRow) where
  empty := okResponse (text "No active events")
  header n :=
    text "OK " ++ decimal n ++ text " active event(s):\n" ++
      text "  " ++ padRight 5 (text "ID") ++ text " " ++ padRight 20 (text "Name") ++ text " " ++
      padRight 15 (text "Venue") ++ text " " ++ padRight 11 (text "Date") ++ text " " ++
      padRight 5 (text "Time") ++ text "  " ++ padRight 6 (text "Seats") ++ text "  Rs.\n" ++
      text "  ───── ──────────────────── ─────────────── ─────────── ─────  ──────  ────\n"
  row := eventLine libc
  slack := 100

/-- `VIEW_SEATS`. -/
def seatListing (eid : Nat) : ListingFormat (Nat × SeatRecord) where
  empty := errorResponse (text "No seats found")
  header n :=
    text "OK Seats for event " ++ decimal eid ++ text " (" ++ decimal n ++ text " total):\n" ++
      text "  " ++ padRight 6 (text "SeatID") ++ text " " ++ padRight 5 (text "Seat") ++ text " " ++
      padRight 8 (text "Status") ++ text "\n" ++ text "  ────── ───── ────────\n"
  row := seatLine
  slack := 60

/-- `MY_BOOKINGS`. -/
def bookingListing : ListingFormat (Nat × BookingRecord) where
  empty := okResponse (text "No active bookings")
  header n :=
    text "OK Your bookings (" ++ decimal n ++ text "):\n" ++
      text "  " ++ padRight 8 (text "BookID") ++ text " " ++ padRight 8 (text "EventID") ++
      text " " ++ padRight 6 (text "Seats") ++ text " " ++ padRight 10 (text "Amount") ++
      text "\n" ++ text "  ──────── ──────── ────── ──────────\n"
  row := bookingLine libc
  slack := 60

/-- `REVENUE` without arguments; its header has no count. -/
def revenueListing : ListingFormat EventRevenue where
  empty := okResponse (text "No events found")
  header _ := text "OK Revenue for your events:\n"
  row rev := reportsFormatRevenue libc rev 512 ++ text "\n"
  slack := 200

/-- `LIST_USERS`. -/
def userListing : ListingFormat (Nat × UserRecord) where
  empty := okResponse (text "No users")
  header n :=
    text "OK " ++ decimal n ++ text " user(s):\n" ++ text "  " ++
      padRight 5 (text "ID") ++ text " " ++ padRight 20 (text "Username") ++ text " " ++
      padRight 10 (text "Role") ++ text "\n" ++
      text "  ───── ──────────────────── ──────────\n"
  row := userLine
  slack := 60

theorem handleListEvents_print : handleListEvents libc env s =
    (eventListing libc).print (eventMgrListEvents s.events 50 (env.fault 0)) := rfl

theorem handleViewSeats_print (h : 1 ≤ cmd.argc) (hmemory : env.memory 0 = true) :
    handleViewSeats env s cmd =
      (seatListing (idArg (cmd.arg 0))).print
        (eventMgrGetSeats s.seats (idArg (cmd.arg 0)) MAX_REPORT_SEATS (env.fault 0)) := by
  unfold handleViewSeats
  rw [if_neg (Nat.not_lt.mpr h), hmemory]
  rfl

theorem handleViewSeats_starved (h : 1 ≤ cmd.argc) (hmemory : env.memory 0 = false) :
    handleViewSeats env s cmd = errorResponse (text "Out of memory") := by
  unfold handleViewSeats
  rw [if_neg (Nat.not_lt.mpr h), hmemory]
  rfl

theorem handleMyBookings_print : handleMyBookings libc env s slot =
    (bookingListing libc).print
      (bookingListByUser s.bookings (s.auth.sessions slot).userId 20 (env.fault 0)) := rfl

theorem handleRevenue_print (h : cmd.argc = 0) : handleRevenue libc env s slot cmd =
    (revenueListing libc).print
      (reportsOrganizerRevenue s.events s.seats (s.auth.sessions slot).userId 20 env.fault env.memory) :=
  if_neg (by omega)

theorem handleListUsers_print : handleListUsers env s =
    userListing.print (scanRecords s.users (fun _ => true) 50 (env.fault 0)) := rfl

end Formats

/-! ## `HELP` -/

/-- The first text of `HELP`. -/
def helpHeader (role : UserRole) : CStr :=
  text "OK Available commands (role: " ++ roleName role ++ text "):\n" ++
    text "  ── Auth ─────────────────────────────────────────────\n" ++
    text "  REGISTER <user> <pass> [customer|organizer]\n" ++ text "  LOGIN    <user> <pass>\n" ++
    text "  LOGOUT\n" ++ text "  ── Events ───────────────────────────────────────────\n" ++
    text "  LIST_EVENTS\n" ++ text "  VIEW_EVENT  <event_id>\n" ++ text "  VIEW_SEATS  <event_id>\n"

/-- The further texts of `HELP`, by role. -/
def helpRows (role : UserRole) : List CStr :=
  (if role = .organizer ∨ role = .admin then
    [text "  CREATE_EVENT <name> <venue> <date> <time> <rows> <seats_per_row> <price>\n" ++
      text "  DELETE_EVENT <event_id>\n"]
  else []) ++
  (if role ≠ .guest then
    [text "  ── Booking ──────────────────────────────────────────\n" ++
      text "  BOOK     <event_id> <seat_id1> [seat_id2] ...\n" ++ text "  CANCEL   <booking_id>\n" ++
      text "  MY_BOOKINGS\n"]
  else []) ++
  (if role = .organizer ∨ role = .admin then
    [text "  ── Reports ──────────────────────────────────────────\n" ++
      text "  REVENUE  [event_id]\n"]
  else []) ++
  (if role = .admin then
    [text "  ── Admin ────────────────────────────────────────────\n" ++
      text "  LIST_USERS\n" ++ text "  SYSTEM_STATS\n"]
  else []) ++
  [text "  ── General ──────────────────────────────────────────\n" ++ text "  HELP\n" ++
    text "  QUIT\n"]

/-- The calls of `HELP`; no room is asked for. -/
def helpCalls (role : UserRole) : List SnprintfCall :=
  ⟨0, helpHeader role⟩ ::
    ResponseBuffer.calls (fun _ => True) (helpRows role) (ResponseBuffer.start (helpHeader role))

theorem handleHelp_calls (role : UserRole) :
    handleHelp role = ((helpCalls role).map SnprintfCall.written).flatten ∧
      Accumulates (helpCalls role) := by
  obtain ⟨hout, hacc⟩ := ResponseBuffer.start_fill (fun _ => True) (helpHeader role) (helpRows role)
  refine ⟨Eq.trans ?_ hout, hacc⟩
  cases role <;> simp [handleHelp, helpHeader, helpRows, ResponseBuffer.fill]

/-- The texts of `HELP` are short. -/
theorem helpCalls_inside (role : UserRole) : ∀ c ∈ helpCalls role, c.off < MAX_RESPONSE_SIZE := by
  have hall : (helpCalls role).all (fun c => decide (c.off < MAX_RESPONSE_SIZE)) = true := by
    cases role <;> decide +kernel
  intro c hc
  exact of_decide_eq_true (List.all_eq_true.mp hall c hc)

/-! ## All commands -/

section Commands

variable (libc : FloatLibc) (env : CmdEnv) (s : Server) (slot : Fin MAX_CONNECTIONS)
  (cmd : ParsedCommand)

/-- The calls of the accumulation loop of a command; none if it has none, or ends before it. -/
def snprintfCalls : List SnprintfCall :=
  match cmd.type with
  | .listEvents => (eventListing libc).calls (eventMgrListEvents s.events 50 (env.fault 0))
  | .viewSeats =>
    if cmd.argc < 1 ∨ env.memory 0 = false then []
    else
      (seatListing (idArg (cmd.arg 0))).calls
        (eventMgrGetSeats s.seats (idArg (cmd.arg 0)) MAX_REPORT_SEATS (env.fault 0))
  | .myBookings =>
    (bookingListing libc).calls
      (bookingListByUser s.bookings (s.auth.sessions slot).userId 20 (env.fault 0))
  | .revenue =>
    if cmd.argc ≥ 1 then []
    else
      (revenueListing libc).calls
        (reportsOrganizerRevenue s.events s.seats (s.auth.sessions slot).userId 20 env.fault env.memory)
  | .listUsers => userListing.calls (scanRecords s.users (fun _ => true) 50 (env.fault 0))
  | .help => helpCalls (s.auth.sessions slot).role
  | _ => []

/-- **Offsets stay inside the buffer.**  For every state of the server, session and command: the loops
of `LIST_EVENTS`, `VIEW_SEATS`, `MY_BOOKINGS`, `REVENUE` and `LIST_USERS` and the texts of `HELP` print
at offsets that lie inside the response, whatever ids, counts, names and prices they print; and these
calls make the response. -/
theorem response_offsets_inside :
    (∀ c ∈ snprintfCalls libc env s slot cmd, c.off < MAX_RESPONSE_SIZE) ∧
      (snprintfCalls libc env s slot cmd = [] ∨
        handleCommand libc env s slot cmd =
            some (s, ((snprintfCalls libc env s slot cmd).map SnprintfCall.written).flatten) ∧
          Accumulates (snprintfCalls libc env s slot cmd)) := by
  have hlisting : ∀ {β : Type} (F : ListingFormat β) (records : List β) (resp : CStr),
      resp = F.print records →
      (∀ c ∈ F.calls records, c.off < MAX_RESPONSE_SIZE) ∧
        (F.calls records = [] ∨
          some (s, resp) = some (s, ((F.calls records).map SnprintfCall.written).flatten) ∧
            Accumulates (F.calls records)) := by
    rintro β F records resp rfl
    exact ⟨fun c hc => F.calls_inside hc,
      (F.print_calls records).imp_right (And.imp_left fun h => by rw [h])⟩
  have hnone : (∀ c ∈ ([] : List SnprintfCall), c.off < MAX_RESPONSE_SIZE) :=
    fun c hc => absurd hc List.not_mem_nil
  unfold snprintfCalls handleCommand
  cases cmd.type with
  | listEvents => exact hlisting _ _ _ (handleListEvents_print libc env s)
  | viewSeats =>
    dsimp only
    split
    · exact ⟨hnone, Or.inl rfl⟩
    · rename_i hgoes
      rw [not_or, Bool.not_eq_false] at hgoes
      exact hlisting _ _ _ (handleViewSeats_print env s cmd (by omega) hgoes.2)
  | myBookings => exact hlisting _ _ _ (handleMyBookings_print libc env s slot)
  | revenue =>
    dsimp only
    split
    · exact ⟨hnone, Or.inl rfl⟩
    · rename_i hargc
      exact hlisting _ _ _ (handleRevenue_print libc env s slot cmd (by omega))
  | listUsers => exact hlisting _ _ _ (handleListUsers_print env s)
  | help =>
    obtain ⟨hout, hacc⟩ := handleHelp_calls (s.auth.sessions slot).role
    exact ⟨helpCalls_inside _, Or.inr ⟨by rw [hout], hacc⟩⟩
  | register | login | logout | viewEvent | createEvent | deleteEvent | book | cancel | systemStats
    | quit | unknown => exact ⟨hnone, Or.inl rfl⟩

end Commands

end Ticketing
