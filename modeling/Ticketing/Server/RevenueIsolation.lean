import Ticketing.Server.Privileges

/-!
# What an organizer sees of other organizers' revenue

`REVENUE` without an event id reports the organizer's own events.  With an event id it goes to
`reports_event_revenue`, which takes any event.

* `AgreeFor` — two servers that show one organizer the same events and seats of their own, and have
  the same event ids.
* `revenue_isolated_iff` — the response to a `REVENUE` line depends on nothing else exactly when the
  line names no event, an event that does not exist, or one of the organizer's own.
* `revenue_leaks` — the booked seats of another organizer's event show in the response.
-/

set_option autoImplicit false

namespace Ticketing

open CText

/-- Two servers agree on the events of organizer `u`, on the seats of these events, and on which
events exist. -/
structure AgreeFor (u : Nat) (s s' : Server) : Prop where
  events : ∀ id e, e.organizerId = u → (s.events.get? id = some e ↔ s'.events.get? id = some e)
  exist : ∀ id, s.events.get? id = none ↔ s'.events.get? id = none
  seats : ∀ id e, s.events.get? id = some e → e.organizerId = u →
    ∀ sid seat, seat.eventId = id → (s.seats.get? sid = some seat ↔ s'.seats.get? sid = some seat)

/-- The bytes sent in reply to a line. -/
def sentFor (libc : FloatLibc) (env : CmdEnv) (s : Server) (slot : Fin MAX_CONNECTIONS) (buf : CStr) :
    Option CStr :=
  (executeLine libc env s slot (.line buf)).map Reply.sent

/-- The reply to a `REVENUE` line of an organizer. -/
theorem sentFor_revenue {libc : FloatLibc} {env : CmdEnv} {s : Server} {slot : Fin MAX_CONNECTIONS}
    {buf : CStr} {cmd : ParsedCommand} (hparse : parseCommand (stripEol buf) = some cmd)
    (hcmd : cmd.type = .revenue) (hrole : (s.auth.sessions slot).role = .organizer) :
    sentFor libc env s slot buf = some (handleRevenue libc env s slot cmd ++ prompt) := by
  have hne : stripEol buf ≠ [] := by
    intro he
    rw [he] at hparse
    cases hparse
  have hperm : rbacCheck (s.auth.sessions slot).role cmd.type = true := by
    rw [hrole, hcmd]
    rfl
  simp only [sentFor, executeLine, if_neg hne, hparse, executeCommand, hcmd, handleCommand]
  rw [hcmd] at hperm
  simp only [hperm]
  rfl

section Reports

variable {u : Nat} {s s' : Server}

/-- The report on one of the organizer's own events. -/
theorem AgreeFor.report (h : AgreeFor u s s') {id : Nat} {e : EventRow}
    (he : s.events.get? id = some e) (hown : e.organizerId = u) (find scan : TableFault)
    (memory : Bool) : reportsEventRevenue s'.events s'.seats id find scan memory =
      reportsEventRevenue s.events s.seats id find scan memory := by
  have he' := (h.events id e hown).mp he
  have hseats : scanRecords s'.seats (fun seat => seat.eventId == id) MAX_REPORT_SEATS scan =
      scanRecords s.seats (fun seat => seat.eventId == id) MAX_REPORT_SEATS scan := by
    apply scanRecords_congr
    intro sid seat hseat
    exact (h.seats id e he hown sid seat (by simpa using hseat)).symm
  have hfind : findRecord s'.events id find = findRecord s.events id find := by
    simp only [findRecord, he, he']
  unfold reportsEventRevenue
  rw [hseats, hfind]

/-- The reports on all active events of the organizer. -/
theorem AgreeFor.organizerReports (h : AgreeFor u s s') (max : Nat) (fault : Nat → TableFault)
    (memory : Nat → Bool) : reportsOrganizerRevenue s'.events s'.seats u max fault memory =
      reportsOrganizerRevenue s.events s.seats u max fault memory := by
  have hown : scanRecords s'.events (filterByOrganizer u) 100 (fault 0) =
      scanRecords s.events (filterByOrganizer u) 100 (fault 0) := by
    apply scanRecords_congr
    intro id e he
    simp only [filterByOrganizer, Bool.and_eq_true, beq_iff_eq] at he
    exact (h.events id e he.1).symm
  simp only [reportsOrganizerRevenue, hown]
  congr 1
  apply List.filterMap_congr
  rintro ⟨⟨id, e⟩, k⟩ hmem
  have hscan := mem_scanRecords (List.fst_mem_of_mem_zipIdx hmem)
  obtain ⟨hget, hfilter⟩ := hscan
  simp only [filterByOrganizer, Bool.and_eq_true, beq_iff_eq] at hfilter
  simp only [h.report hget hfilter.1]

/-- The report on an event that is looked up in vain or is the organizer's own, or without memory. -/
theorem AgreeFor.report_of_find (h : AgreeFor u s s') {id : Nat} {find : TableFault} {memory : Bool}
    (hown : ∀ e, findRecord s.events id find = .ok e → memory = true → e.organizerId = u) (scan : TableFault) :
    reportsEventRevenue s'.events s'.seats id find scan memory =
      reportsEventRevenue s.events s.seats id find scan memory := by
  cases find with
  | error rc applied => rfl
  | none | unread skipped =>
    cases he : s.events.get? id with
    | none =>
      have he' := (h.exist id).mp he
      unfold reportsEventRevenue
      simp only [findRecord, he, he', Option.elim_none]
    | some e =>
      cases memory with
      | true =>
        refine h.report he (hown e ?_ rfl) _ _ _
        simp only [findRecord, he, Option.elim_some]
      | false =>
        obtain ⟨e', he'⟩ := Option.ne_none_iff_exists'.mp (mt (h.exist id).mpr (by rw [he]; exact Option.some_ne_none e))
        unfold reportsEventRevenue
        simp only [findRecord, he, he', Option.elim_some]
        rfl

end Reports

/-! ## Exactly when the response is isolated -/

/-- The reply to `REVENUE` with an event id begins with the event's name. -/
theorem revenueReply_eq (libc : FloatLibc) (rev : EventRevenue) : ∃ rest,
    okResponse (text "\n" ++ reportsFormatRevenue libc rev 512) =
      text "OK \nEvent: " ++ rev.eventName.headD 32 :: rest := by
  have hn : text "\n" = [10] := by decide
  have he : text "Event: " = [69, 118, 101, 110, 116, 58, 32] := by decide
  have hi : text " (ID: " = [32, 40, 73, 68, 58, 32] := by decide
  have ho : text "OK \nEvent: " = [79, 75, 32, 10, 69, 118, 101, 110, 116, 58, 32] := by decide
  have hw : statusWord .ok = [79, 75, 32] := by decide
  unfold okResponse formatResponse reportsFormatRevenue strlcpy
  rw [hn, he, ho, hw, hi]
  cases hname : rev.eventName with
  | nil =>
    simp only [List.append_assoc, List.cons_append, List.nil_append, List.take_succ_cons,
      MAX_RESPONSE_SIZE, List.length_cons, List.length_nil, Nat.reduceAdd, Nat.reduceSub, List.headD_nil]
    exact ⟨_, rfl⟩
  | cons b name =>
    simp only [List.append_assoc, List.cons_append, List.nil_append, List.take_succ_cons,
      MAX_RESPONSE_SIZE, List.length_cons, List.length_nil, Nat.reduceAdd, Nat.reduceSub, List.headD_cons]
    exact ⟨_, rfl⟩

theorem handleRevenue_name (libc : FloatLibc) {env : CmdEnv} {s : Server}
    (slot : Fin MAX_CONNECTIONS) {cmd : ParsedCommand} {e : EventRow} (hargc : cmd.argc ≥ 1)
    (he : findRecord s.events (idArg (cmd.arg 0)) (env.fault 0) = .ok e) (hmemory : env.memory 0 = true) :
    ∃ rest, handleRevenue libc env s slot cmd =
      text "OK \nEvent: " ++ (strlcpy 64 e.name).headD 32 :: rest := by
  unfold handleRevenue reportsEventRevenue
  rw [if_pos hargc, hmemory, he]
  exact revenueReply_eq libc _

/-- A name that starts with another byte. -/
def otherName (name : CStr) : CStr := if (strlcpy 64 name).headD 32 = 97 then [98] else [97]

theorem otherName_headD (name : CStr) :
    (strlcpy 64 (otherName name)).headD 32 ≠ (strlcpy 64 name).headD 32 := by
  unfold otherName
  split
  · rename_i h
    rw [h]
    decide
  · rename_i h
    intro he
    exact h he.symm

/-- Renaming a foreign event is invisible in the organizer's own data. -/
theorem agreeFor_rename {u : Nat} {s : Server} {id : Nat} {e : EventRow}
    (he : s.events.get? id = some e) (hforeign : e.organizerId ≠ u) (name : CStr) :
    AgreeFor u s { s with events := s.events.update id { e with name := name } } where
  events := by
    intro id' e' hown
    rcases eq_or_ne id' id with rfl | hne
    · simp only [OTable.get?_update_self he, he, Option.some.injEq]
      constructor
      · rintro rfl
        exact absurd hown hforeign
      · rintro rfl
        exact absurd hown hforeign
    · simp only [OTable.get?_update_ne hne]
  exist := by
    intro id'
    rcases eq_or_ne id' id with rfl | hne
    · simp only [OTable.get?_update_self he, he]
      simp
    · simp only [OTable.get?_update_ne hne]
  seats := fun _ _ _ _ _ _ _ => Iff.rfl

/-- The lookup of an event that is there finds what the table has now. -/
theorem findRecord_update {t : OTable EventRow} {id : Nat} {fault : TableFault} {e : EventRow}
    (h : findRecord t id fault = .ok e) (e' : EventRow) :
    findRecord (t.update id e') id fault = .ok e' := by
  have hget : (t.update id e').get? id = some e' := OTable.get?_update_self (findRecord_ok h)
  cases fault with
  | error rc applied => cases h
  | none | unread skipped => simp only [findRecord, hget, Option.elim_some]

/-- **Revenue isolation.**  The response to a `REVENUE` line of organizer `u` depends only on their
own events, the seats of these and the ids of existing events, if and only if the line names no
event, or the lookup of the event it names finds none or one of their own, or there is no memory for its
seats. -/
theorem revenue_isolated_iff (libc : FloatLibc) (env : CmdEnv) {s : Server}
    {slot : Fin MAX_CONNECTIONS} {buf : CStr} {cmd : ParsedCommand} {u : Nat}
    (hparse : parseCommand (stripEol buf) = some cmd) (hcmd : cmd.type = .revenue)
    (hrole : (s.auth.sessions slot).role = .organizer) (huser : (s.auth.sessions slot).userId = u) :
    (∀ s' : Server, s'.auth.sessions slot = s.auth.sessions slot → AgreeFor u s s' →
      sentFor libc env s' slot buf = sentFor libc env s slot buf) ↔
    cmd.argc = 0 ∨ ∀ e, findRecord s.events (idArg (cmd.arg 0)) (env.fault 0) = .ok e →
      env.memory 0 = true → e.organizerId = u := by
  constructor
  · intro hiso
    by_contra hnot
    push Not at hnot
    obtain ⟨hargc, e, hfind, hmemory, hforeign⟩ := hnot
    have hge : cmd.argc ≥ 1 := by omega
    -- the event under another name
    let e' : EventRow := { e with name := otherName e.name }
    have hagree := agreeFor_rename (findRecord_ok hfind) hforeign (otherName e.name)
    have hsame := hiso { s with events := s.events.update (idArg (cmd.arg 0)) e' } rfl hagree
    rw [sentFor_revenue hparse hcmd hrole, sentFor_revenue hparse hcmd (by exact hrole),
      Option.some.injEq, List.append_cancel_right_eq] at hsame
    obtain ⟨rest, hrest⟩ := handleRevenue_name libc slot hge hfind hmemory
    obtain ⟨rest', hrest'⟩ := handleRevenue_name libc slot
      (s := { s with events := s.events.update (idArg (cmd.arg 0)) e' }) hge
      (findRecord_update hfind e') hmemory
    rw [hrest, hrest', List.append_cancel_left_eq, List.cons.injEq] at hsame
    exact otherName_headD e.name hsame.1
  · intro hcase s' hsession hagree
    have hrole' : (s'.auth.sessions slot).role = .organizer := by rw [hsession]; exact hrole
    rw [sentFor_revenue hparse hcmd hrole, sentFor_revenue hparse hcmd hrole']
    simp only [handleRevenue, hsession, huser, hagree.organizerReports]
    by_cases hargc : cmd.argc ≥ 1
    · rw [hagree.report_of_find (hcase.resolve_left (by omega))]
    · simp only [if_neg hargc]

/-! ## A leak -/

/-- A server whose first session is that of organizer 7, and whose event 1 belongs to organizer 5 and has
one seat. -/
def foreignEventServer (status : SeatStatus) : Server :=
  { serverInit 0 with
    events := (OTable.empty 1).insert
      { name := text "Gala", venue := text "Hall", eventDate := text "2026-01-01",
        eventTime := text "20:00", organizerId := 5, totalRows := 1, seatsPerRow := 1, price := 0,
        status := .active }
    seats := (OTable.empty 1).insert ⟨1, 65, 1, status, 0⟩
    auth := authCreate.setSlot firstSlot ⟨4, 7, .organizer, text "olga", true⟩ }

theorem foreignEventServer_agree :
    AgreeFor 7 (foreignEventServer .available) (foreignEventServer .booked) where
  events := fun _ _ _ => Iff.rfl
  exist := fun _ => Iff.rfl
  seats := by
    intro id e he hown
    rcases eq_or_ne id 1 with rfl | hne
    · have hself : (foreignEventServer .available).events.get? 1 = some _ :=
        OTable.get?_insert_self (OTable.empty 1) _
      rw [hself] at he
      cases he
      cases hown
    · have hother : (foreignEventServer .available).events.get? id = none :=
        OTable.get?_insert_ne hne
      rw [hother] at he
      cases he

/-- Storage that does not fail. -/
def fineEnv : CmdEnv := ⟨0, fun _ => .none, [], fun _ => true⟩

/-- `REVENUE 1` by organizer 7 tells whether the seat of organizer 5's event is booked. -/
theorem revenue_leaks :
    (foreignEventServer .available).auth.sessions firstSlot = ⟨4, 7, .organizer, text "olga", true⟩ ∧
    (foreignEventServer .booked).auth.sessions firstSlot = ⟨4, 7, .organizer, text "olga", true⟩ ∧
    AgreeFor 7 (foreignEventServer .available) (foreignEventServer .booked) ∧
    ∀ libc : FloatLibc, sentFor libc fineEnv (foreignEventServer .booked) firstSlot (text "REVENUE 1") ≠
      sentFor libc fineEnv (foreignEventServer .available) firstSlot (text "REVENUE 1") := by
  refine ⟨rfl, rfl, foreignEventServer_agree, ?_⟩
  intro libc hsame
  -- the first 42 bytes end in the number of booked seats
  have hcut := congrArg (Option.map (List.take 42)) hsame
  have hbooked : (sentFor libc fineEnv (foreignEventServer .booked) firstSlot (text "REVENUE 1")).map (List.take 42) =
      some (text "OK \nEvent: Gala (ID: 1)\n  Seats:     1 boo") := rfl
  have hfree : (sentFor libc fineEnv (foreignEventServer .available) firstSlot (text "REVENUE 1")).map (List.take 42) =
      some (text "OK \nEvent: Gala (ID: 1)\n  Seats:     0 boo") := rfl
  rw [hbooked, hfree] at hcut
  exact absurd hcut (by decide)

/-- The same server, where organizer 7 has an event too, with one seat, which is booked. -/
def twoEventsServer : Server :=
  { foreignEventServer .available with
    events := (foreignEventServer .available).events.insert
      { name := text "Ball", venue := text "Club", eventDate := text "2026-02-02",
        eventTime := text "21:00", organizerId := 7, totalRows := 1, seatsPerRow := 1, price := 0,
        status := .active }
    seats := (foreignEventServer .available).seats.insert ⟨2, 65, 1, .booked, 0⟩ }

/-- The report on all own events tells nothing else. -/
theorem revenue_isolated_without_event :
    parseCommand (stripEol (text "REVENUE")) = some ⟨.revenue, []⟩ ∧
    (sentFor noFloats fineEnv twoEventsServer firstSlot (text "REVENUE")).map (List.take 66) =
      some (text "OK Revenue for your events:\nEvent: Ball (ID: 2)\n  Seats:     1 boo") ∧
    ∀ s' : Server, s'.auth.sessions firstSlot = twoEventsServer.auth.sessions firstSlot →
      AgreeFor 7 twoEventsServer s' →
      sentFor noFloats fineEnv s' firstSlot (text "REVENUE") =
        sentFor noFloats fineEnv twoEventsServer firstSlot (text "REVENUE") := by
  have hparse : parseCommand (stripEol (text "REVENUE")) = some ⟨.revenue, []⟩ := by decide
  exact ⟨hparse, rfl, (revenue_isolated_iff noFloats fineEnv hparse rfl rfl rfl).mpr (Or.inl rfl)⟩

end Ticketing
