import Ticketing.Server.RevenueAgreement

/-!
# The bounds of `CREATE_EVENT`

`handle_command` converts the numbers of rows and of seats in a row to `uint16_t` before
`event_mgr_create_event` checks them, and prints the product of what was typed.

* `CreateCall` — the command, with storage that does not fail.
* `GridCreated`, `NothingCreated` — what the two answers stand for.
* `executeCommand_create` — what the server does.
* `create_event_bounds_iff` — when the bounds are honoured.
-/

set_option autoImplicit false

namespace Ticketing

open CText

/-- The bounds on rows and on seats in a row. -/
def InBounds (r c : Int) : Prop := 1 ≤ r ∧ r ≤ 26 ∧ 1 ≤ c ∧ c ≤ 100

instance (r c : Int) : Decidable (InBounds r c) := by
  unfold InBounds
  infer_instance

/-- A `CREATE_EVENT` with `r` rows of `c` seats, by a session that may send it, with a valid price, ids
left, and storage that does not fail. -/
structure CreateCall (libc : FloatLibc) (env : CmdEnv) (s : Server) (slot : Fin MAX_CONNECTIONS)
    (cmd : ParsedCommand) (r c : Int) : Prop where
  type : cmd.type = .createEvent
  argc : 7 ≤ cmd.argc
  role : (s.auth.sessions slot).role = .organizer ∨ (s.auth.sessions slot).role = .admin
  rows : atoi (cmd.arg 4) = r
  cols : atoi (cmd.arg 5) = c
  finite : libc.isFinite (libc.atof (cmd.arg 6)) = true
  nonneg : libc.isNegative (libc.atof (cmd.arg 6)) = false
  storage : ∀ k, env.fault k = .none
  eventIds : s.events.nextId < 2 ^ 32
  seatIds : s.seats.nextId + 2600 ≤ 2 ^ 32

/-- The event is there with `r` rows of `c` seats, the seats are, and the answer counts them. -/
structure GridCreated (s : Server) (cmd : ParsedCommand) (r c : Int) (reply : Reply) : Prop where
  event : ∃ evt, reply.server.events = s.events.insert evt ∧ (evt.totalRows : Int) = r ∧
    (evt.seatsPerRow : Int) = c
  seats : ∃ rows, reply.server.seats.rows = s.seats.rows ++ rows ∧ (rows.length : Int) = r * c ∧
    ∀ x ∈ rows, x.2.eventId = s.events.nextId
  answer : reply.sent = okResponse (text "Event '" ++ cmd.arg 0 ++ text "' created (ID: " ++
    decimal s.events.nextId ++ text ", " ++ decimalInt (r * c) ++ text " seats)") ++ prompt

/-- The command fails and leaves events and seats as they were. -/
structure NothingCreated (s : Server) (reply : Reply) : Prop where
  events : reply.server.events = s.events
  seats : reply.server.seats = s.seats
  answer : reply.sent = errorResponse (text "Failed to create event") ++ prompt

/-- The command succeeds within the bounds, and fails outside. -/
def HonoursBounds (libc : FloatLibc) (env : CmdEnv) (s : Server) (slot : Fin MAX_CONNECTIONS)
    (cmd : ParsedCommand) (r c : Int) : Prop :=
  ∃ reply, executeCommand libc env s slot cmd = some reply ∧
    (InBounds r c → GridCreated s cmd r c reply) ∧ (¬ InBounds r c → NothingCreated s reply)

section Create

variable {libc : FloatLibc} {env : CmdEnv} {s : Server} {slot : Fin MAX_CONNECTIONS}
  {cmd : ParsedCommand} {r c : Int}

/-- The numbers that reach the event manager are within its bounds. -/
theorem toUInt16_bounds :
    InBounds (r % 2 ^ 16) (c % 2 ^ 16) ↔
      ¬ (toUInt16 r = 0 ∨ toUInt16 r > MAX_SEAT_ROWS) ∧
        ¬ (toUInt16 c = 0 ∨ toUInt16 c > MAX_SEATS_PER_ROW) := by
  unfold InBounds toUInt16 MAX_SEAT_ROWS MAX_SEATS_PER_ROW
  omega

/-- The router answers, as the session may create events. -/
theorem executeCommand_routed (h : CreateCall libc env s slot cmd r c) :
    executeCommand libc env s slot cmd =
      (handleCreateEvent libc env s slot cmd).map fun p => ⟨p.1, p.2 ++ prompt, false⟩ := by
  have hperm : rbacCheck (s.auth.sessions slot).role .createEvent = true := by
    rcases h.role with hrole | hrole <;>
    · rw [hrole]
      rfl
  simp [executeCommand, h.type, hperm, handleCommand]

/-- Outside the bounds of the event manager nothing happens. -/
theorem executeCommand_refused (h : CreateCall libc env s slot cmd r c)
    (hout : ¬ InBounds (r % 2 ^ 16) (c % 2 ^ 16)) :
    ∃ reply, executeCommand libc env s slot cmd = some reply ∧ NothingCreated s reply := by
  have hbounds := mt toUInt16_bounds.mpr hout
  rw [executeCommand_routed h, handleCreateEvent, if_neg (by have := h.argc; omega), h.rows, h.cols,
    eventMgrCreateEvent_refused (by tauto)]
  exact ⟨_, rfl, rfl, rfl, rfl⟩

/-- Within them there are as many rows and seats as the narrowed numbers say, and the answer multiplies
the numbers as they were typed. -/
theorem executeCommand_create (h : CreateCall libc env s slot cmd r c)
    (hin : InBounds (r % 2 ^ 16) (c % 2 ^ 16)) :
    ∃ reply evt rows, executeCommand libc env s slot cmd = some reply ∧
      reply.server.events = s.events.insert evt ∧ evt.totalRows = toUInt16 r ∧
      evt.seatsPerRow = toUInt16 c ∧ reply.server.seats.rows = s.seats.rows ++ rows ∧
      rows.length = toUInt16 r * toUInt16 c ∧ (∀ x ∈ rows, x.2.eventId = s.events.nextId) ∧
      reply.sent = okResponse (text "Event '" ++ cmd.arg 0 ++ text "' created (ID: " ++
        decimal s.events.nextId ++ text ", " ++ decimalInt (toCInt (r * c)) ++ text " seats)") ++
        prompt := by
  obtain ⟨hrows, hcols⟩ := toUInt16_bounds.mp hin
  have hlen : toUInt16 r * toUInt16 c ≤ 2600 := by
    unfold MAX_SEAT_ROWS at hrows
    unfold MAX_SEATS_PER_ROW at hcols
    have hmul : toUInt16 r * toUInt16 c ≤ 26 * 100 := Nat.mul_le_mul (by omega) (by omega)
    omega
  have hseats : s.seats.nextId + (seatGrid s.events.nextId (toUInt16 r) (toUInt16 c)).length ≤ 2 ^ 32 := by
    have := h.seatIds
    rw [length_seatGrid]
    omega
  obtain ⟨evt, hr, hc, hcreate⟩ := eventMgrCreateEvent_all h.storage h.finite h.nonneg hrows hcols
    h.eventIds hseats
  rw [executeCommand_routed h, handleCreateEvent, if_neg (by have := h.argc; omega), h.rows, h.cols,
    hcreate]
  refine ⟨_, evt, _, rfl, rfl, hr, hc, OTable.rows_insertAll _ _, ?_, ?_, rfl⟩
  · rw [List.length_zip, List.length_range', Nat.min_self, length_seatGrid]
  · intro x hx
    exact (mem_seatGrid (List.of_mem_zip hx).2).1

end Create

/-- **When the bounds are honoured.**  For all numbers `r` and `c` that are typed: the command does what
its bounds say if and only if the numbers are within them whenever their residues modulo 65536 are. -/
theorem create_event_bounds_iff {libc : FloatLibc} {env : CmdEnv} {s : Server}
    {slot : Fin MAX_CONNECTIONS} {cmd : ParsedCommand} {r c : Int}
    (h : CreateCall libc env s slot cmd r c) :
    HonoursBounds libc env s slot cmd r c ↔
      (InBounds (r % 2 ^ 16) (c % 2 ^ 16) → InBounds r c) := by
  by_cases hin : InBounds (r % 2 ^ 16) (c % 2 ^ 16)
  · obtain ⟨reply, evt, rows, hrun, hevent, hr, hc, hseats, hlen, hown, hsent⟩ :=
      executeCommand_create h hin
    constructor
    · rintro ⟨reply', hrun', -, hnothing⟩ -
      by_contra hout
      obtain rfl : reply' = reply := Option.some.inj (hrun'.symm.trans hrun)
      have hsame : s.events.insert evt = s.events := hevent.symm.trans (hnothing hout).events
      have hid := congrArg OTable.nextId hsame
      rw [OTable.nextId_insert] at hid
      omega
    · intro hall
      obtain ⟨hr1, hr26, hc1, hc100⟩ := hall hin
      have hrow : (toUInt16 r : Int) = r := by unfold toUInt16; omega
      have hcol : (toUInt16 c : Int) = c := by unfold toUInt16; omega
      have hprint : toCInt (r * c) = r * c := by
        have hle : toUInt16 r * toUInt16 c ≤ 26 * 100 := Nat.mul_le_mul (by omega) (by omega)
        rw [← hrow, ← hcol, ← Nat.cast_mul, toCInt_of_lt (by omega)]
      refine ⟨reply, hrun, fun _ => ⟨⟨evt, hevent, ?_, ?_⟩, ⟨rows, hseats, ?_, hown⟩, ?_⟩,
        fun hout => absurd (hall hin) hout⟩
      · rw [hr, hrow]
      · rw [hc, hcol]
      · rw [hlen, Nat.cast_mul, hrow, hcol]
      · rw [hsent, hprint]
  · obtain ⟨reply, hrun, hnothing⟩ := executeCommand_refused h hin
    refine iff_of_true ⟨reply, hrun, fun hbounds => absurd ?_ hin, fun _ => hnothing⟩ fun h' => absurd h' hin
    unfold InBounds at hbounds ⊢
    omega

/-! ## A row too many -/

/-- A server whose first session is that of organizer 7. -/
def organizerServer : Server :=
  { serverInit 0 with auth := authCreate.setSlot firstSlot ⟨4, 7, .organizer, text "olga", true⟩ }

/-- `CREATE_EVENT Gala Hall 2026-01-01 20:00` with the numbers and the price as they are typed. -/
def createCommand (rows cols : String) : ParsedCommand :=
  ⟨.createEvent, [text "Gala", text "Hall", text "2026-01-01", text "20:00", text rows, text cols, text "0"]⟩

/-- Two rows of three seats. -/
theorem create_event_bounds_iff_grid :
    HonoursBounds noFloats ⟨0, fun _ => .none, [], fun _ => true⟩ organizerServer firstSlot (createCommand "2" "3") 2 3 := by
  refine (create_event_bounds_iff ⟨rfl, by decide, Or.inl rfl, by decide, by decide, rfl, rfl,
    fun _ => rfl, by decide, by decide⟩).mpr fun _ => by decide

/-- 65537 rows of one seat: the event is created, with one row. -/
theorem many_rows_narrowed :
    atoi (text "65537") = 65537 ∧
      ¬ HonoursBounds noFloats ⟨0, fun _ => .none, [], fun _ => true⟩ organizerServer firstSlot
        (createCommand "65537" "1") 65537 1 := by
  have hatoi : atoi (text "65537") = 65537 := by decide
  refine ⟨hatoi, ?_⟩
  rintro ⟨reply, hrun, -, hnothing⟩
  have hnext : (executeCommand noFloats ⟨0, fun _ => .none, [], fun _ => true⟩ organizerServer firstSlot
      (createCommand "65537" "1")).map (fun r => r.server.events.nextId) = some 2 := rfl
  rw [hrun, Option.map_some, (hnothing (by decide)).events] at hnext
  exact absurd hnext (by decide)

end Ticketing
