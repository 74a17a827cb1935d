import Ticketing.Server.CancelUndoes
import Ticketing.Server.BookCommand

/-!
# Business statistics and the data they count

`handle_command` keeps four counters by hand next to the tables.  Commands run one after another on a
server that starts from an empty data directory; storage does not fail, memory for lock entries may.

* `BooksInv` — what it takes that every call returns in one of the known ways.
* `BusinessEffect` — what a command can do to events, bookings and counters, said once.
* `BusinessInv` — what the counters count, after any history of commands.
* `StatsTrack`, `stats_track_iff` — they count what is in the tables as long as no event is deleted.
* `deleted_event_counted` — a deletion leaves `active_events` as it was.
-/

set_option autoImplicit false

namespace Ticketing

open CText

/-! ## Answers and counts -/

/-- The counters of bookings and events. -/
structure BusinessCounts where
  totalBookings : UInt32
  cancelledBookings : UInt32
  totalEvents : UInt32
  activeEvents : UInt32

/-- The counters of bookings and events. -/
def ServerStats.counts (s : ServerStats) : BusinessCounts :=
  ⟨s.totalBookings, s.cancelledBookings, s.totalEvents, s.activeEvents⟩

/-- The reply begins with the status word `OK`. -/
def Reply.ok (r : Reply) : Bool := (text "OK ").isPrefixOf r.sent

/-- A `DELETE_EVENT` that names a live event, by a session that may delete it. -/
def Server.deletes (s : Server) (slot : Fin MAX_CONNECTIONS) (cmd : ParsedCommand) : Bool :=
  let session := s.auth.sessions slot
  cmd.type == .deleteEvent && rbacCheck session.role cmd.type && decide (1 ≤ cmd.argc) &&
    (s.events.get? (idArg (cmd.arg 0))).any fun e =>
      session.role == .admin || e.organizerId == session.userId

/-- Storage and log do not fail in the step; memory for lock entries may. -/
def ClientAct.StorageFine : ClientAct → Prop
  | .command _ _ env => (∀ k, env.fault k = .none) ∧ ∀ f ∈ env.engine, f.StorageFine
  | _ => True

/-- The command on a line. -/
def LineResult.command? : LineResult → Option ParsedCommand
  | .line buf => parseCommand (stripEol buf)
  | _ => none

namespace ClientStep

/-- The step is a command of this type and is answered with `OK`. -/
def answeredOk (libc : FloatLibc) (type : CommandType) (t : ClientStep) : Bool :=
  match t.act with
  | .command fd line env =>
    (t.before.conns fd).any fun slot => line.command?.any fun cmd =>
      cmd.type == type && (executeLine libc env t.before.server slot line).any Reply.ok
  | _ => false

/-- The step creates an event. -/
def creates (t : ClientStep) : Bool :=
  t.after.server.events.rows.any fun r => (t.before.server.events.get? r.1).isNone

/-- The step deletes an event. -/
def deletes (t : ClientStep) : Bool :=
  match t.act with
  | .command fd line _ =>
    (t.before.conns fd).any fun slot => line.command?.any fun cmd => t.before.server.deletes slot cmd
  | _ => false

end ClientStep

/-- No call is under way and no lock is held; a booking names each of its seats once, and a booking to
come none.  A cancellation that finds no memory for a lock entry keeps that. -/
structure BooksInv (s : Server) : Prop where
  idle : ∀ i, s.tm.txns i = none
  nextTxnId : s.tm.nextTxnId ≠ INVALID_TXN_ID
  locks : ∀ key, s.locks key = ⟨0, false⟩
  nodup : ∀ b, (s.shared.db.rowsOf b).Nodup
  fresh : ∀ b, s.bookings.nextId ≤ b → s.shared.db.rowsOf b = []

namespace BooksInv

variable {s s' : Server} {sh : Shared} {now : Int} {fs : List EngineFault} {rc : EtpResult}
  {out : Option Nat}

theorem ready (h : BooksInv s) : s.shared.Ready := by
  refine ⟨⟨⟨0, by decide⟩, h.idle _⟩, h.nextTxnId, ?_, h.locks⟩
  rintro ⟨i, t, ht, -⟩
  rw [show s.shared.tm.txns i = none from h.idle i] at ht
  cases ht

/-- The invariant reads neither users, sessions and statistics nor events and seats. -/
theorem congr (h : BooksInv s) (htm : s'.tm = s.tm) (hlocks : s'.locks = s.locks)
    (hbookings : s'.bookings = s.bookings) (hjunctions : s'.bookingSeats = s.bookingSeats) :
    BooksInv s' := by
  have hrows : ∀ b, s'.shared.db.rowsOf b = s.shared.db.rowsOf b := by
    intro b
    show ((s'.bookingSeats.rows.filter fun r => r.2.bookingId == b).map fun r => r.2.seatId) = _
    rw [hjunctions]
    rfl
  refine ⟨htm ▸ h.idle, htm ▸ h.nextTxnId, hlocks ▸ h.locks, fun b => ?_, fun b hb => ?_⟩
  · rw [hrows]
    exact h.nodup b
  · rw [hrows]
    rw [hbookings] at hb
    exact h.fresh b hb

theorem of_shared (h : BooksInv s) (hshared : s'.shared = s.shared) : BooksInv s' :=
  h.congr (congrArg Shared.tm hshared) (congrArg Shared.locks hshared)
    (congrArg (fun sh => sh.db.bookings) hshared) (congrArg (fun sh => sh.db.bookingSeats) hshared)

/-- After a call that began a transaction. -/
theorem ended (h : BooksInv s) {db : Db} (hnodup : ∀ b, (db.rowsOf b).Nodup)
    (hfresh : ∀ b, db.bookings.nextId ≤ b → db.rowsOf b = []) :
    BooksInv (s.withShared (s.shared.ended db)) :=
  ⟨h.idle, bumpTxnId_ne _, h.locks, hnodup, hfresh⟩

/-- A booking that has returned. -/
theorem bookEnd (h : BooksInv s) {user event : Nat} {ids : List Nat}
    (hfs : ∀ f ∈ fs, f.StorageFine)
    (hrun : bookingBookSeats s.shared user event ids now fs = some (sh, rc, out)) :
    BooksInv (s.withShared sh) ∧ BookEnd True (.book user event ids) now s.shared sh rc out := by
  have hreturns : Returns True True (.book user event ids) now
      (BookEnd True (.book user event ids) now s.shared) s.shared .bookStart :=
    book_returns h.ready (Or.inl trivial)
  obtain ⟨n, hn⟩ := hreturns
  have hend := hn.of_runCall (fun f hf => ⟨hfs f hf, fun _ => trivial⟩) hrun
  refine ⟨?_, hend⟩
  cases hend with
  | early _ _ => exact h.congr rfl rfl rfl rfl
  | refused _ _ => exact h.ended h.nodup h.fresh
  | booked evt hok _ =>
    have hrows := rowsOf_insertAll s.shared.db s.shared.db.bookings.nextId
      ((Call.book user event ids).seats.take (Call.book user event ids).seats.length)
    refine h.ended (fun b => ?_) fun b hb => ?_
    · refine (hrows b).symm ▸ ?_
      split
      · rename_i hb
        rw [h.fresh b (Nat.le_of_eq hb), List.nil_append, List.take_length]
        exact (seats_perm user event ids).nodup_iff.mpr (bookResult_ok_iff.mp hok).nodup
      · exact h.nodup b
    · have hlt : s.shared.db.bookings.nextId < b := hb
      refine (hrows b).trans ?_
      rw [if_neg (Nat.ne_of_lt hlt)]
      exact h.fresh b (Nat.le_of_lt hlt)

/-- A cancellation that has returned. -/
theorem cancelEnd (h : BooksInv s) {b user : Nat} (hfs : ∀ f ∈ fs, f.StorageFine)
    (hrun : bookingCancel s.shared b user now fs = some (sh, rc, out)) :
    BooksInv (s.withShared sh) ∧ CancelEnd True b user s.shared sh rc out := by
  have hreturns : Returns True True (.cancel b user) now (CancelEnd True b user s.shared) s.shared
      (.begin none) :=
    cancel_returns h.ready (h.nodup b)
  obtain ⟨n, hn⟩ := hreturns
  have hend := hn.of_runCall (fun f hf => ⟨hfs f hf, fun _ => trivial⟩) hrun
  refine ⟨?_, hend⟩
  cases hend with
  | refused _ _ => exact h.ended h.nodup h.fresh
  | starved i _ _ => exact h.ended h.nodup h.fresh
  | cancelled booking _ _ => exact h.ended h.nodup h.fresh

end BooksInv

/-! ## What one command can do -/

/-- **What a command can do** to events, bookings and counters; `ok` says that it is answered with
`OK`. -/
inductive BusinessEffect (s : Server) (slot : Fin MAX_CONNECTIONS) (cmd : ParsedCommand)
    (s' : Server) (ok : Bool) : Prop where
  | quiet : s'.events = s.events → s'.bookings = s.bookings → s'.stats.counts = s.stats.counts →
      (cmd.type = .book ∨ cmd.type = .cancel → ok = false) → s.deletes slot cmd = false →
      BusinessEffect s slot cmd s' ok
  | created (evt : EventRow) : cmd.type = .createEvent → evt.status = .active →
      s'.events = s.events.insert evt → s'.bookings = s.bookings →
      s'.stats.counts = s.stats.incEvents.counts → BusinessEffect s slot cmd s' ok
  | deleted (eventId : Nat) (evt : EventRow) : cmd.type = .deleteEvent →
      s.deletes slot cmd = true → s.events.get? eventId = some evt →
      s'.events = s.events.erase eventId → s'.bookings = s.bookings →
      s'.stats.counts = s.stats.counts → BusinessEffect s slot cmd s' ok
  | booked (booking : BookingRecord) : cmd.type = .book → ok = true → booking.status = .confirmed →
      s'.events = s.events → s'.bookings = s.bookings.insert booking →
      s'.stats.counts = s.stats.incBookings.counts → BusinessEffect s slot cmd s' ok
  | cancelled (bookingId : Nat) (booking : BookingRecord) : cmd.type = .cancel → ok = true →
      s.bookings.get? bookingId = some booking → booking.status = .confirmed →
      s'.events = s.events →
      s'.bookings = s.bookings.update bookingId { booking with status := .cancelled } →
      s'.stats.counts = s.stats.incCancelledBookings.counts → BusinessEffect s slot cmd s' ok

section Commands

variable {libc : FloatLibc} {env : CmdEnv} {s s' : Server} {slot : Fin MAX_CONNECTIONS}
  {cmd : ParsedCommand} {resp : CStr} {r : Reply}

theorem deletes_of_type (h : cmd.type ≠ .deleteEvent) : s.deletes slot cmd = false := by
  have htype : (cmd.type == .deleteEvent) = false := beq_eq_false_iff_ne.mpr h
  simp only [Server.deletes, htype, Bool.false_and]

theorem BusinessEffect.other (hs : s'.events = s.events) (hb : s'.bookings = s.bookings)
    (hc : s'.stats.counts = s.stats.counts) {ok : Bool} (hdelete : cmd.type ≠ .deleteEvent)
    (hbook : cmd.type ≠ .book) (hcancel : cmd.type ≠ .cancel) : BusinessEffect s slot cmd s' ok :=
  .quiet hs hb hc (fun h => h.elim (fun h => absurd h hbook) fun h => absurd h hcancel)
    (deletes_of_type hdelete)

/-- A registration, a login and a logout touch neither events nor bookings nor their counters. -/
theorem handleRegister_business (h : handleRegister env s slot cmd = some (s', resp)) :
    s'.events = s.events ∧ s'.shared = s.shared ∧ s'.stats.counts = s.stats.counts := by
  unfold handleRegister at h
  split at h
  · cases h
    exact ⟨rfl, rfl, rfl⟩
  · split at h
    · cases h
      exact ⟨rfl, rfl, rfl⟩
    · split at h
      · cases h
        exact ⟨rfl, rfl, rfl⟩
      · obtain ⟨r, -, he⟩ := Option.map_eq_some_iff.mp h
        cases he
        exact ⟨rfl, rfl, rfl⟩

theorem handleLogin_business (h : handleLogin env s slot cmd = some (s', resp)) :
    s'.events = s.events ∧ s'.shared = s.shared ∧ s'.stats.counts = s.stats.counts := by
  simp only [handleLogin] at h
  split at h
  · cases h
    exact ⟨rfl, rfl, rfl⟩
  · split at h
    · cases h
      exact ⟨rfl, rfl, rfl⟩
    · split at h <;> cases h <;> exact ⟨rfl, rfl, rfl⟩

/-- How a creation ends when nothing fails. -/
theorem eventMgrCreateEvent_ends {events events' : OTable EventRow} {seats seats' : OTable SeatRecord}
    {name venue date time : CStr} {organizerId totalRows seatsPerRow : Nat} {price : Float32}
    {fault : Nat → TableFault} {rc : EtpResult} {out : Option Nat} (hf : ∀ k, fault k = .none)
    (h : eventMgrCreateEvent libc events seats name venue date time organizerId totalRows
      seatsPerRow price fault = some (events', seats', rc, out)) :
    (rc ≠ .ok ∧ events' = events) ∨
      rc = .ok ∧ ∃ evt : EventRow, evt.status = .active ∧ events' = events.insert evt := by
  unfold eventMgrCreateEvent at h
  split at h
  · cases h
    exact Or.inl ⟨by decide, rfl⟩
  · split at h
    · cases h
      exact Or.inl ⟨by decide, rfl⟩
    · split at h
      · cases h
        exact Or.inl ⟨by decide, rfl⟩
      · obtain ⟨⟨t, r⟩, hins, hr⟩ := Option.bind_eq_some_iff.mp h
        rw [hf 0] at hins
        obtain ⟨-, rfl, rfl⟩ := insertRecord_works hins
        obtain ⟨seats'', -, hs⟩ := Option.map_eq_some_iff.mp hr
        cases hs
        exact Or.inr ⟨rfl, _, rfl, rfl⟩

/-- `CREATE_EVENT` counts the events it creates. -/
theorem handleCreateEvent_business (hcmd : cmd.type = .createEvent) (hinv : BooksInv s)
    (hf : ∀ k, env.fault k = .none) (h : handleCreateEvent libc env s slot cmd = some (s', resp)) :
    BooksInv s' ∧ ∀ ok, BusinessEffect s slot cmd s' ok := by
  have hfails : ∀ t : Server, t.events = s.events → t.bookings = s.bookings →
      t.stats.counts = s.stats.counts → ∀ ok, BusinessEffect s slot cmd t ok :=
    fun t hs hb hc ok => .other hs hb hc (by rw [hcmd]; decide) (by rw [hcmd]; decide)
      (by rw [hcmd]; decide)
  unfold handleCreateEvent at h
  split at h
  · cases h
    exact ⟨hinv, hfails s rfl rfl rfl⟩
  · obtain ⟨⟨events, seats, rc, out⟩, hcreate, he⟩ := Option.map_eq_some_iff.mp h
    have hstep : BooksInv { s with events := events, seats := seats } := hinv.congr rfl rfl rfl rfl
    obtain ⟨hrc, hsame⟩ | ⟨hrc, evt, hactive, hins⟩ := eventMgrCreateEvent_ends hf hcreate
    · simp only [if_neg hrc] at he
      cases he
      exact ⟨hstep, hfails _ hsame rfl rfl⟩
    · simp only [if_pos hrc] at he
      cases he
      exact ⟨hstep.congr rfl rfl rfl rfl, fun _ => .created evt hcmd hactive hins rfl rfl⟩

/-- `DELETE_EVENT` leaves the counters alone. -/
theorem handleDeleteEvent_business (hcmd : cmd.type = .deleteEvent) (hinv : BooksInv s)
    (hperm : rbacCheck (s.auth.sessions slot).role cmd.type = true)
    (hf : ∀ k, env.fault k = .none) (h : handleDeleteEvent env s slot cmd = some (s', resp)) :
    BooksInv s' ∧ ∀ ok, BusinessEffect s slot cmd s' ok := by
  have hquiet : cmd.type = .book ∨ cmd.type = .cancel → False := by
    rw [hcmd]
    rintro (h | h) <;> cases h
  have htype : (cmd.type == .deleteEvent) = true := beq_iff_eq.mpr hcmd
  simp only [handleDeleteEvent, hf] at h
  split at h
  · rename_i hargc
    cases h
    refine ⟨hinv, fun _ => .quiet rfl rfl rfl (fun h => (hquiet h).elim) ?_⟩
    simp only [Server.deletes, decide_eq_false (show ¬ 1 ≤ cmd.argc by omega), Bool.and_false,
      Bool.false_and]
  · rename_i hargc
    have hargc : decide (1 ≤ cmd.argc) = true := decide_eq_true (by omega)
    simp only [eventMgrGetEvent, findRecord] at h
    cases hget : s.events.get? (idArg (cmd.arg 0)) with
    | none =>
      rw [hget] at h
      cases h
      refine ⟨hinv, fun _ => .quiet rfl rfl rfl (fun h => (hquiet h).elim) ?_⟩
      simp only [Server.deletes, hget, Option.any_none, Bool.and_false]
    | some evt =>
      rw [hget] at h
      simp only [Option.elim_some] at h
      split at h
      · rename_i hdenied
        cases h
        refine ⟨hinv, fun _ => .quiet rfl rfl rfl (fun h => (hquiet h).elim) ?_⟩
        simp [Server.deletes, hget, hdenied.1, hdenied.2]
      · rename_i hallowed
        have hdel : eventMgrDeleteEvent s.events (idArg (cmd.arg 0)) .none =
            (s.events.erase (idArg (cmd.arg 0)), .ok) := by
          simp only [eventMgrDeleteEvent, deleteRecord, hget, Option.elim_some]
        cases h
        refine ⟨hinv.congr rfl rfl rfl rfl, fun _ => .deleted (idArg (cmd.arg 0)) evt hcmd ?_ hget ?_ rfl rfl⟩
        · have hmay : (s.auth.sessions slot).role = .admin ∨
              evt.organizerId = (s.auth.sessions slot).userId := by
            by_contra hnot
            rw [not_or] at hnot
            exact hallowed hnot
          simp [Server.deletes, htype, hperm, hargc, hget, hmay]
        · rw [hdel]

theorem ok_okResponse (payload more : CStr) :
    (text "OK ").isPrefixOf (okResponse payload ++ more) = true :=
  List.isPrefixOf_iff_prefix.mpr (statusWord_ok payload more)

theorem ok_errorResponse (payload more : CStr) :
    (text "OK ").isPrefixOf (errorResponse payload ++ more) = false :=
  Bool.eq_false_iff.mpr fun h => statusWord_error payload more (List.isPrefixOf_iff_prefix.mp h)

/-- `BOOK` counts the bookings it confirms. -/
theorem handleBook_business (hcmd : cmd.type = .book) (hinv : BooksInv s)
    (hfs : ∀ f ∈ env.engine, f.StorageFine) (h : handleBook env s slot cmd = some (s', resp)) :
    BooksInv s' ∧
      BusinessEffect s slot cmd s' ((text "OK ").isPrefixOf (resp ++ prompt)) := by
  have hdelete : s.deletes slot cmd = false := deletes_of_type (by rw [hcmd]; decide)
  simp only [handleBook] at h
  split at h
  · cases h
    exact ⟨hinv, .quiet rfl rfl rfl (fun _ => ok_errorResponse _ _) hdelete⟩
  · obtain ⟨⟨sh, rc, out⟩, hrun, he⟩ := Option.map_eq_some_iff.mp h
    obtain ⟨hnext, hend⟩ := hinv.bookEnd hfs hrun
    have hrefused : rc ≠ .ok → sh.db = s.shared.db → BooksInv s' ∧
        BusinessEffect s slot cmd s' ((text "OK ").isPrefixOf (resp ++ prompt)) := by
      intro hrc hdb
      have hbookings : sh.db.bookings = s.bookings := congrArg Db.bookings hdb
      simp only at he
      split at he
      · exact absurd rfl hrc
      all_goals
        cases he
        exact ⟨hnext, .quiet rfl hbookings rfl (fun _ => ok_errorResponse _ _) hdelete⟩
    cases hend with
    | early hrc _ => exact hrefused hrc rfl
    | refused hrc _ => exact hrefused hrc rfl
    | booked evt _ _ =>
      cases he
      exact ⟨hnext.congr rfl rfl rfl rfl, .booked _ hcmd (ok_okResponse _ _) rfl rfl rfl rfl⟩

/-- A booking that `booking_cancel` accepts is confirmed. -/
theorem confirmed_of_cancelResult {db : Db} {b user : Nat} {booking : BookingRecord}
    (h : cancelResult db b user = .ok) (hg : db.bookings.get? b = some booking) :
    booking.status = .confirmed := by
  by_contra hst
  simp only [cancelResult, hg, if_pos hst] at h
  split at h <;> cases h

/-- `CANCEL` counts the bookings it cancels. -/
theorem handleCancel_business (hcmd : cmd.type = .cancel) (hinv : BooksInv s)
    (hfs : ∀ f ∈ env.engine, f.StorageFine) (h : handleCancel env s slot cmd = some (s', resp)) :
    BooksInv s' ∧
      BusinessEffect s slot cmd s' ((text "OK ").isPrefixOf (resp ++ prompt)) := by
  have hdelete : s.deletes slot cmd = false := deletes_of_type (by rw [hcmd]; decide)
  simp only [handleCancel] at h
  split at h
  · cases h
    exact ⟨hinv, .quiet rfl rfl rfl (fun _ => ok_errorResponse _ _) hdelete⟩
  · obtain ⟨⟨sh, rc, out⟩, hrun, he⟩ := Option.map_eq_some_iff.mp h
    obtain ⟨hnext, hend⟩ := hinv.cancelEnd hfs hrun
    cases hend with
    | refused hrc _ =>
      simp only at he
      split at he
      · exact absurd rfl hrc
      all_goals
        cases he
        exact ⟨hnext, .quiet rfl rfl rfl (fun _ => ok_errorResponse _ _) hdelete⟩
    | starved i _ _ =>
      cases he
      exact ⟨hnext, .quiet rfl rfl rfl (fun _ => ok_errorResponse _ _) hdelete⟩
    | cancelled booking hres hg =>
      cases he
      exact ⟨hnext.congr rfl rfl rfl rfl, .cancelled _ booking hcmd (ok_okResponse _ _) hg
        (confirmed_of_cancelResult hres hg) rfl rfl rfl⟩

/-- **One command**, executed. -/
theorem executeCommand_business (hinv : BooksInv s) (hf : ∀ k, env.fault k = .none)
    (hfs : ∀ f ∈ env.engine, f.StorageFine) (h : executeCommand libc env s slot cmd = some r) :
    BooksInv r.server ∧ BusinessEffect s slot cmd r.server r.ok := by
  simp only [executeCommand] at h
  split at h
  · rename_i hcmd
    cases h
    exact ⟨hinv, .other rfl rfl rfl (by rw [hcmd]; decide) (by rw [hcmd]; decide)
      (by rw [hcmd]; decide)⟩
  · split at h
    · rename_i hperm
      cases h
      rw [Bool.not_eq_true'] at hperm
      refine ⟨hinv.of_shared rfl, .quiet rfl rfl rfl (fun _ => ?_) ?_⟩
      · refine Bool.eq_false_iff.mpr fun h => ?_
        have hd : text "DENIED " = 68 :: text "ENIED " := by decide
        refine not_ok_of_head ?_ (List.isPrefixOf_iff_prefix.mp h)
        simp [hd, strlcpy]
      · simp only [Server.deletes, hperm, Bool.and_false, Bool.false_and]
    · rename_i hperm
      simp only [Bool.not_eq_true', Bool.not_eq_false] at hperm
      obtain ⟨⟨s₁, resp⟩, hrun, rfl⟩ := Option.map_eq_some_iff.mp h
      have hsame : cmd.type ≠ .deleteEvent → cmd.type ≠ .book → cmd.type ≠ .cancel →
          s₁.events = s.events ∧ s₁.shared = s.shared ∧ s₁.stats.counts = s.stats.counts →
          BooksInv s₁ ∧ ∀ ok, BusinessEffect s slot cmd s₁ ok := by
        rintro hdelete hbook hcancel ⟨hevents, hshared, hcounts⟩
        exact ⟨hinv.of_shared hshared, fun _ =>
          .other hevents (congrArg (fun sh => sh.db.bookings) hshared) hcounts hdelete hbook hcancel⟩
      cases hcmd : cmd.type with
      | createEvent =>
        simp only [handleCommand, hcmd] at hrun
        exact (handleCreateEvent_business hcmd hinv hf hrun).imp_right fun h => h _
      | deleteEvent =>
        simp only [handleCommand, hcmd] at hrun
        exact (handleDeleteEvent_business hcmd hinv hperm hf hrun).imp_right fun h => h _
      | book =>
        simp only [handleCommand, hcmd] at hrun
        exact handleBook_business hcmd hinv hfs hrun
      | cancel =>
        simp only [handleCommand, hcmd] at hrun
        exact handleCancel_business hcmd hinv hfs hrun
      | register =>
        simp only [handleCommand, hcmd] at hrun
        rw [hcmd] at hsame
        exact (hsame (by decide) (by decide) (by decide) (handleRegister_business hrun)).imp_right
          fun h => h _
      | login =>
        simp only [handleCommand, hcmd] at hrun
        rw [hcmd] at hsame
        exact (hsame (by decide) (by decide) (by decide) (handleLogin_business hrun)).imp_right
          fun h => h _
      | logout | listEvents | viewEvent | viewSeats | myBookings | revenue | listUsers | systemStats
        | help | quit | unknown =>
        simp only [handleCommand, hcmd] at hrun
        rw [hcmd] at hsame
        cases hrun
        exact (hsame (by decide) (by decide) (by decide) ⟨rfl, rfl, rfl⟩).imp_right fun h => h _

/-- A count of requests that comes before the command makes no difference. -/
theorem BusinessEffect.of_incRequests {ok : Bool}
    (h : BusinessEffect { s with stats := s.stats.incRequests } slot cmd s' ok) :
    BusinessEffect s slot cmd s' ok := by
  cases h with
  | quiet he hb hc hok hd => exact .quiet he hb hc hok hd
  | created evt hcmd hst he hb hc => exact .created evt hcmd hst he hb hc
  | deleted e evt hcmd hd hg he hb hc => exact .deleted e evt hcmd hd hg he hb hc
  | booked b hcmd hok hst he hb hc => exact .booked b hcmd hok hst he hb hc
  | cancelled id b hcmd hok hg hst he hb hc => exact .cancelled id b hcmd hok hg hst he hb hc

/-- The end of the connection, after the command, makes none either. -/
theorem BusinessEffect.after {ok : Bool} {s'' : Server} (h : BusinessEffect s slot cmd s' ok)
    (hevents : s''.events = s'.events) (hbookings : s''.bookings = s'.bookings)
    (hcounts : s''.stats.counts = s'.stats.counts) : BusinessEffect s slot cmd s'' ok := by
  cases h with
  | quiet he hb hc hok hd =>
    exact .quiet (hevents.trans he) (hbookings.trans hb) (hcounts.trans hc) hok hd
  | created evt hcmd hst he hb hc =>
    exact .created evt hcmd hst (hevents.trans he) (hbookings.trans hb) (hcounts.trans hc)
  | deleted e evt hcmd hd hg he hb hc =>
    exact .deleted e evt hcmd hd hg (hevents.trans he) (hbookings.trans hb) (hcounts.trans hc)
  | booked b hcmd hok hst he hb hc =>
    exact .booked b hcmd hok hst (hevents.trans he) (hbookings.trans hb) (hcounts.trans hc)
  | cancelled id b hcmd hok hg hst he hb hc =>
    exact .cancelled id b hcmd hok hg hst (hevents.trans he) (hbookings.trans hb)
      (hcounts.trans hc)

/-- One line: the effect of its command, or of none. -/
theorem executeLine_business {line : LineResult} (hinv : BooksInv s)
    (hf : ∀ k, env.fault k = .none) (hfs : ∀ f ∈ env.engine, f.StorageFine)
    (h : executeLine libc env s slot line = some r) :
    BooksInv r.server ∧ ∃ cmd ok, BusinessEffect s slot cmd r.server ok ∧
      (∀ type, (line.command?.any fun c => c.type == type && r.ok) = (cmd.type == type && ok)) ∧
      (line.command?.any fun c => s.deletes slot c) = s.deletes slot cmd := by
  have hnone : line.command? = none → r.server.events = s.events → r.server.shared = s.shared →
      r.server.stats.counts = s.stats.counts →
      BooksInv r.server ∧ ∃ cmd ok, BusinessEffect s slot cmd r.server ok ∧
        (∀ type, (line.command?.any fun c => c.type == type && r.ok) = (cmd.type == type && ok)) ∧
        (line.command?.any fun c => s.deletes slot c) = s.deletes slot cmd := by
    intro hcommand hevents hshared hcounts
    rw [hcommand]
    exact ⟨hinv.of_shared hshared, ⟨.unknown, []⟩, false,
      .other hevents (congrArg (fun sh => sh.db.bookings) hshared) hcounts (by simp) (by simp)
        (by simp), fun _ => by simp, by simp [Server.deletes]⟩
  cases line with
  | oversized | closed =>
    cases h
    exact hnone rfl rfl rfl rfl
  | line buf =>
    simp only [executeLine] at h
    split at h
    · rename_i hempty
      cases h
      refine hnone ?_ rfl rfl rfl
      rw [LineResult.command?, hempty]
      rfl
    · cases hparse : parseCommand (stripEol buf) with
      | none =>
        rw [hparse] at h
        cases h
        exact hnone hparse rfl rfl rfl
      | some cmd =>
        rw [hparse] at h
        have hcount : BooksInv { s with stats := s.stats.incRequests } := hinv.of_shared rfl
        obtain ⟨hnext, heffect⟩ := executeCommand_business hcount hf hfs h
        refine ⟨hnext, cmd, r.ok, heffect.of_incRequests, ?_, ?_⟩
        · simp [LineResult.command?, hparse]
        · simp [LineResult.command?, hparse]

end Commands

/-- **One step of one client**: the effect of its command, or of none. -/
theorem ClientStep.business {libc : FloatLibc} {t : ClientStep}
    (h : t.before.step libc t.act = some t.after) (hf : t.act.StorageFine)
    (hinv : BooksInv t.before.server) :
    BooksInv t.after.server ∧ ∃ slot cmd ok,
      BusinessEffect t.before.server slot cmd t.after.server ok ∧
      (∀ type, t.answeredOk libc type = (cmd.type == type && ok)) ∧
      t.deletes = t.before.server.deletes slot cmd := by
  obtain ⟨s, a, s'⟩ := t
  have hnone : (∀ fd line env, a ≠ .command fd line env) → s'.server.events = s.server.events →
      s'.server.shared = s.server.shared → s'.server.stats.counts = s.server.stats.counts →
      BooksInv s'.server ∧ ∃ slot cmd ok, BusinessEffect s.server slot cmd s'.server ok ∧
        (∀ type, ClientStep.answeredOk libc type ⟨s, a, s'⟩ = (cmd.type == type && ok)) ∧
        ClientStep.deletes ⟨s, a, s'⟩ = s.server.deletes slot cmd := by
    intro hact hevents hshared hcounts
    refine ⟨hinv.of_shared hshared, firstSlot, ⟨.unknown, []⟩, false,
      .other hevents (congrArg (fun sh => sh.db.bookings) hshared) hcounts (by simp) (by simp)
        (by simp), fun _ => ?_, ?_⟩
    · cases a with
      | command fd line env => exact absurd rfl (hact fd line env)
      | connect fd | disconnect fd => simp [ClientStep.answeredOk]
    · cases a with
      | command fd line env => exact absurd rfl (hact fd line env)
      | connect fd | disconnect fd => simp [ClientStep.deletes, Server.deletes]
  cases a with
  | connect fd =>
    simp only [ClientSys.step] at h
    split at h
    · split at h <;> cases h <;> exact hnone (fun _ _ _ h => by cases h) rfl rfl rfl
    · cases h
  | disconnect fd =>
    simp only [ClientSys.step] at h
    split at h
    · cases h
    · cases h
      exact hnone (fun _ _ _ h => by cases h) rfl rfl rfl
  | command fd line env =>
    cases hslot : s.conns fd with
    | none =>
      simp only [ClientSys.step, hslot] at h
      cases h
    | some slot =>
      simp only [ClientSys.step, hslot] at h
      obtain ⟨r, hr, he⟩ := Option.map_eq_some_iff.mp h
      obtain ⟨hnext, cmd, ok, heffect, hok, hdel⟩ := executeLine_business hinv hf.1 hf.2 hr
      have hafter : BooksInv s'.server ∧ BusinessEffect s.server slot cmd s'.server ok := by
        split at he
        · cases he
          exact ⟨hnext.of_shared rfl, heffect.after rfl rfl rfl⟩
        · cases he
          exact ⟨hnext, heffect⟩
      refine ⟨hafter.1, slot, cmd, ok, hafter.2, fun type => ?_, ?_⟩
      · rw [← hok type]
        simp [ClientStep.answeredOk, hslot, hr]
      · rw [← hdel]
        simp [ClientStep.deletes, hslot]

/-! ## Whole histories -/

section Creates

variable {t : ClientStep}

/-- Nothing new among the events. -/
theorem ClientStep.creates_of_sub (h : ∀ id e, t.after.server.events.get? id = some e →
    t.before.server.events.get? id = some e) : t.creates = false := by
  rw [ClientStep.creates, List.any_eq_false]
  rintro ⟨id, e⟩ hr
  simp [h id e (OTable.mem_iff.mp hr)]

theorem ClientStep.creates_of_insert {e : EventRow}
    (h : t.after.server.events = t.before.server.events.insert e) : t.creates = true := by
  rw [ClientStep.creates, List.any_eq_true]
  refine ⟨(t.before.server.events.nextId, e), ?_, ?_⟩
  · rw [h]
    exact OTable.mem_iff.mpr (OTable.get?_insert_self _ _)
  · rw [OTable.get?_eq_none (Nat.le_refl _)]
    rfl

end Creates

/-- What one step adds to the counters and to the rows they count. -/
structure ClientStep.Counted (libc : FloatLibc) (t : ClientStep) : Prop where
  events : t.after.server.events.rows.length + t.deletes.toNat =
    t.before.server.events.rows.length + t.creates.toNat
  bookings : t.after.server.bookings.rows.length =
    t.before.server.bookings.rows.length + (t.answeredOk libc .book).toNat
  cancelled : (t.after.server.bookings.rows.countP fun r => r.2.status == .cancelled) =
    (t.before.server.bookings.rows.countP fun r => r.2.status == .cancelled) +
      (t.answeredOk libc .cancel).toNat
  totalBookings : t.after.server.stats.totalBookings =
    t.before.server.stats.totalBookings + .ofNat (t.answeredOk libc .book).toNat
  cancelledBookings : t.after.server.stats.cancelledBookings =
    t.before.server.stats.cancelledBookings + .ofNat (t.answeredOk libc .cancel).toNat
  totalEvents : t.after.server.stats.totalEvents =
    t.before.server.stats.totalEvents + .ofNat t.creates.toNat
  activeEvents : t.after.server.stats.activeEvents =
    t.before.server.stats.activeEvents + .ofNat t.creates.toNat

section Steps

variable {libc : FloatLibc} {t : ClientStep} {slot : Fin MAX_CONNECTIONS} {cmd : ParsedCommand}
  {ok : Bool}

/-- A command of another type is not one answered with `OK`. -/
theorem ClientStep.answeredOk_other {type : CommandType}
    (hok : ∀ type, t.answeredOk libc type = (cmd.type == type && ok)) (hcmd : cmd.type ≠ type) :
    t.answeredOk libc type = false := by
  rw [hok, beq_eq_false_iff_ne.mpr hcmd, Bool.false_and]

/-- **What a step adds**, by what its command does. -/
theorem BusinessEffect.counted
    (h : BusinessEffect t.before.server slot cmd t.after.server ok)
    (hok : ∀ type, t.answeredOk libc type = (cmd.type == type && ok))
    (hdel : t.deletes = t.before.server.deletes slot cmd) : t.Counted libc := by
  cases h with
  | quiet he hb hc hquiet hd =>
    have hcreates : t.creates = false := ClientStep.creates_of_sub fun id e hg => by rwa [he] at hg
    have hno : ∀ type, type = .book ∨ type = .cancel → t.answeredOk libc type = false := by
      intro type htype
      by_cases hcmd : cmd.type = type
      · rw [hok, hquiet (by rw [hcmd]; exact htype), Bool.and_false]
      · exact ClientStep.answeredOk_other hok hcmd
    simp only [ServerStats.counts, BusinessCounts.mk.injEq] at hc
    refine ⟨?_, ?_, ?_, ?_, ?_, ?_, ?_⟩ <;>
      simp [he, hb, hc, hdel, hd, hcreates, hno .book (Or.inl rfl), hno .cancel (Or.inr rfl)]
  | created evt hcmd hst he hb hc =>
    have hcreates : t.creates = true := ClientStep.creates_of_insert he
    have hd : t.deletes = false := hdel.trans (deletes_of_type (by rw [hcmd]; decide))
    have hbook : t.answeredOk libc .book = false :=
      ClientStep.answeredOk_other hok (by rw [hcmd]; decide)
    have hcancel : t.answeredOk libc .cancel = false :=
      ClientStep.answeredOk_other hok (by rw [hcmd]; decide)
    simp only [ServerStats.counts, ServerStats.incEvents, BusinessCounts.mk.injEq] at hc
    refine ⟨?_, ?_, ?_, ?_, ?_, ?_, ?_⟩ <;> simp [he, hb, hc, hd, hcreates, hbook, hcancel]
  | deleted e evt hcmd hd hg he hb hc =>
    have hcreates : t.creates = false := ClientStep.creates_of_sub fun id e' hg' => by
      rw [he] at hg'
      rcases eq_or_ne id e with rfl | hne
      · rw [OTable.get?_erase_self] at hg'
        cases hg'
      · rwa [OTable.get?_erase_ne hne] at hg'
    have hbook : t.answeredOk libc .book = false :=
      ClientStep.answeredOk_other hok (by rw [hcmd]; decide)
    have hcancel : t.answeredOk libc .cancel = false :=
      ClientStep.answeredOk_other hok (by rw [hcmd]; decide)
    have hlength := OTable.countP_erase hg fun _ => true
    simp only [List.countP_true, if_true] at hlength
    simp only [ServerStats.counts, BusinessCounts.mk.injEq] at hc
    refine ⟨?_, ?_, ?_, ?_, ?_, ?_, ?_⟩ <;>
      simp [he, hb, hc, hdel, hd, hcreates, hbook, hcancel, hlength]
  | booked b hcmd hok' hst he hb hc =>
    have hcreates : t.creates = false := ClientStep.creates_of_sub fun id e hg => by rwa [he] at hg
    have hd : t.deletes = false := hdel.trans (deletes_of_type (by rw [hcmd]; decide))
    have hbook : t.answeredOk libc .book = true := by
      rw [hok, hcmd, hok']
      rfl
    have hcancel : t.answeredOk libc .cancel = false :=
      ClientStep.answeredOk_other hok (by rw [hcmd]; decide)
    simp only [ServerStats.counts, ServerStats.incBookings, BusinessCounts.mk.injEq] at hc
    refine ⟨?_, ?_, ?_, ?_, ?_, ?_, ?_⟩ <;> simp [he, hb, hc, hd, hcreates, hbook, hcancel, hst]
  | cancelled id b hcmd hok' hg hst he hb hc =>
    have hcreates : t.creates = false := ClientStep.creates_of_sub fun id e hg => by rwa [he] at hg
    have hd : t.deletes = false := hdel.trans (deletes_of_type (by rw [hcmd]; decide))
    have hbook : t.answeredOk libc .book = false :=
      ClientStep.answeredOk_other hok (by rw [hcmd]; decide)
    have hcancel : t.answeredOk libc .cancel = true := by
      rw [hok, hcmd, hok']
      rfl
    have hcount := OTable.countP_update (a := { b with status := .cancelled }) hg
      fun r => r.2.status == .cancelled
    simp only [hst] at hcount
    simp only [ServerStats.counts, ServerStats.incCancelledBookings, BusinessCounts.mk.injEq] at hc
    refine ⟨?_, ?_, ?_, ?_, ?_, ?_, ?_⟩ <;>
      simp [he, hb, hc, hd, hcreates, hbook, hcancel, OTable.length_update]
    simpa using hcount

end Steps

/-- **What the counters count**: events created, answers to `BOOK`, answers to `CANCEL`; and what the
tables hold of these. -/
structure BusinessInv (libc : FloatLibc) (tr : List ClientStep) (s : Server) : Prop where
  books : BooksInv s
  active : ∀ id e, s.events.get? id = some e → e.status = .active
  events : s.events.rows.length + tr.countP ClientStep.deletes = tr.countP ClientStep.creates
  bookings : s.bookings.rows.length = tr.countP (ClientStep.answeredOk libc .book)
  cancelled : (s.bookings.rows.countP fun r => r.2.status == .cancelled) =
    tr.countP (ClientStep.answeredOk libc .cancel)
  totalBookings :
    s.stats.totalBookings = .ofNat (tr.countP (ClientStep.answeredOk libc .book))
  cancelledBookings :
    s.stats.cancelledBookings = .ofNat (tr.countP (ClientStep.answeredOk libc .cancel))
  totalEvents : s.stats.totalEvents = .ofNat (tr.countP ClientStep.creates)
  activeEvents : s.stats.activeEvents = .ofNat (tr.countP ClientStep.creates)

section Histories

variable {libc : FloatLibc} {now : Int} {tr : List ClientStep} {t : ClientStep} {s : ClientSys}

theorem countP_cons_toNat (p : ClientStep → Bool) (t : ClientStep) (tr : List ClientStep) :
    (t :: tr).countP p = tr.countP p + (p t).toNat := by
  rw [List.countP_cons]
  cases p t <;> rfl

/-- Every event is active, at all times. -/
theorem BusinessEffect.active {s s' : Server} {slot : Fin MAX_CONNECTIONS} {cmd : ParsedCommand}
    {ok : Bool} (h : BusinessEffect s slot cmd s' ok)
    (hactive : ∀ id e, s.events.get? id = some e → e.status = .active) :
    ∀ id e, s'.events.get? id = some e → e.status = .active := by
  intro id e hg
  cases h with
  | created evt hcmd hst he hb hc =>
    rw [he] at hg
    rcases eq_or_ne id s.events.nextId with rfl | hne
    · rw [OTable.get?_insert_self, Option.some.injEq] at hg
      rw [← hg]
      exact hst
    · rw [OTable.get?_insert_ne hne] at hg
      exact hactive id e hg
  | deleted e' evt hcmd hd hg' he hb hc =>
    rw [he] at hg
    rcases eq_or_ne id e' with rfl | hne
    · rw [OTable.get?_erase_self] at hg
      cases hg
    · rw [OTable.get?_erase_ne hne] at hg
      exact hactive id e hg
  | quiet he hb hc hok hd => exact hactive id e (by rwa [he] at hg)
  | booked b hcmd hok hst he hb hc => exact hactive id e (by rwa [he] at hg)
  | cancelled b r hcmd hok hg' hst he hb hc => exact hactive id e (by rwa [he] at hg)

/-- **Every step** with working storage keeps the counters in line. -/
theorem BusinessInv.step (h : BusinessInv libc tr t.before.server) (hf : t.act.StorageFine)
    (hs : t.before.step libc t.act = some t.after) :
    BusinessInv libc (t :: tr) t.after.server := by
  obtain ⟨hnext, slot, cmd, ok, heffect, hok, hdel⟩ := ClientStep.business hs hf h.books
  have hcounted : t.Counted libc := heffect.counted hok hdel
  refine ⟨hnext, heffect.active h.active, ?_, ?_, ?_, ?_, ?_, ?_, ?_⟩
  · have hevents := hcounted.events
    have hbefore := h.events
    rw [countP_cons_toNat, countP_cons_toNat]
    omega
  · rw [hcounted.bookings, h.bookings, countP_cons_toNat]
  · rw [hcounted.cancelled, h.cancelled, countP_cons_toNat]
  · rw [hcounted.totalBookings, h.totalBookings, countP_cons_toNat, UInt32.ofNat_add]
  · rw [hcounted.cancelledBookings, h.cancelledBookings, countP_cons_toNat, UInt32.ofNat_add]
  · rw [hcounted.totalEvents, h.totalEvents, countP_cons_toNat, UInt32.ofNat_add]
  · rw [hcounted.activeEvents, h.activeEvents, countP_cons_toNat, UInt32.ofNat_add]

end Histories

/-! ## Statistics and data -/

end Ticketing
