import Ticketing.Server.ClientHandler
import Ticketing.Lib.Runs

/-!
# Privileges over whole runs

Who can become what, and who can take what away, in a server that starts from an empty data
directory and serves any number of clients.  Storage may fail in any command.

* `handleCommand_users`, `handleCommand_auth`, `handleCommand_events`, `handleCommand_bookings` — what
  a command can do to each kind of data, said once.
* `no_privilege_escalation` — the origin of every user, of every authenticated session, of every
  deletion of an event and of every cancellation of a booking.
-/

set_option autoImplicit false

namespace Ticketing

open CText

/-! ## What one command can do -/

section Commands

variable {libc : FloatLibc} {env : CmdEnv} {s s' : Server} {slot : Fin MAX_CONNECTIONS}
  {cmd : ParsedCommand} {resp : CStr}

/-- Users only ever join, as customers or, under an admin, as organizers. -/
structure UsersGrow (s : Server) (slot : Fin MAX_CONNECTIONS) (cmd : ParsedCommand)
    (users : OTable UserRecord) : Prop where
  keep : ∀ id u, s.users.get? id = some u → users.get? id = some u
  join : ∀ id u, users.get? id = some u → s.users.get? id = some u ∨
    s.users.get? id = none ∧ cmd.type = .register ∧
      (u.role = .customer ∨ u.role = .organizer ∧ (s.auth.sessions slot).role = .admin)

theorem UsersGrow.refl (s : Server) (slot : Fin MAX_CONNECTIONS) (cmd : ParsedCommand) :
    UsersGrow s slot cmd s.users :=
  ⟨fun _ _ h => h, fun _ _ h => Or.inl h⟩

theorem registerRole_cases {role : UserRole} (h : registerRole cmd = some role) :
    role = .customer ∨ role = .organizer := by
  unfold registerRole at h
  split at h
  · split at h
    · cases h
      exact Or.inr rfl
    · split at h <;> cases h
      exact Or.inl rfl
  · cases h
    exact Or.inl rfl

theorem handleRegister_users (hcmd : cmd.type = .register)
    (h : handleRegister env s slot cmd = some (s', resp)) : UsersGrow s slot cmd s'.users := by
  unfold handleRegister at h
  split at h
  · cases h
    exact .refl s slot cmd
  · split at h
    · cases h
      exact .refl s slot cmd
    · rename_i role hrole
      split at h
      · cases h
        exact .refl s slot cmd
      · rename_i hallowed
        obtain ⟨⟨users, rc, out⟩, hreg, he⟩ := Option.map_eq_some_iff.mp h
        cases he
        unfold authRegister at hreg
        split at hreg
        · cases hreg
          exact .refl s slot cmd
        · obtain ⟨⟨t, r⟩, hins, hr⟩ := Option.map_eq_some_iff.mp hreg
          have htable : users = t := by
            cases r <;> cases hr <;> rfl
          subst htable
          refine ⟨fun id u hu => insertRecord_keeps hins hu, fun id u hu => ?_⟩
          obtain hold | ⟨rfl, rfl⟩ := insertRecord_get? hins hu
          · exact Or.inl hold
          · refine Or.inr ⟨OTable.get?_eq_none (Nat.le_refl _), hcmd, ?_⟩
            show role = .customer ∨ role = .organizer ∧ _
            obtain rfl | rfl := registerRole_cases hrole
            · exact Or.inl rfl
            · refine Or.inr ⟨rfl, ?_⟩
              by_contra hne
              exact hallowed ⟨rfl, hne⟩

/-- **What a command can do** to the server. -/
inductive CommandEffect (s : Server) (slot : Fin MAX_CONNECTIONS) (cmd : ParsedCommand) :
    Server → Prop where
  /-- It changes nothing but the statistics. -/
  | quiet (stats : ServerStats) : CommandEffect s slot cmd { s with stats := stats }
  | register {users : OTable UserRecord} : UsersGrow s slot cmd users →
      CommandEffect s slot cmd { s with users := users }
  | login {userId : Nat} {user : UserRecord} : cmd.type = .login →
      s.users.get? userId = some user → user.username = cmd.arg 0 →
      etpVerifyPassword (cmd.arg 1) user.passwordHash = true →
      (s.auth.sessions slot).authenticated = false →
      CommandEffect s slot cmd
        { s with auth := (authLoginSection s.auth (s.auth.sessions slot).fd userId user).1 }
  | logout : CommandEffect s slot cmd
      { s with auth := (authLogout s.auth (s.auth.sessions slot).fd).1 }
  /-- It creates an event. -/
  | create {events : OTable EventRow} (seats : OTable SeatRecord) (stats : ServerStats) :
      (∀ id e, s.events.get? id = some e → events.get? id = some e) →
      CommandEffect s slot cmd { s with events := events, seats := seats, stats := stats }
  /-- It deletes an event, for an admin or for the event's organizer. -/
  | delete {eventId : Nat} {e : EventRow} (fault : TableFault) : cmd.type = .deleteEvent →
      s.events.get? eventId = some e →
      (s.auth.sessions slot).role = .admin ∨ e.organizerId = (s.auth.sessions slot).userId →
      CommandEffect s slot cmd { s with events := (eventMgrDeleteEvent s.events eventId fault).1 }
  /-- It books or cancels, in the name of the session's user. -/
  | engine {sh : Shared} (c : Call) (stats : ServerStats) :
      KeptBy c s.bookings sh.db.bookings → c.userId = (s.auth.sessions slot).userId →
      (c.isCancel = true → cmd.type = .cancel) →
      CommandEffect s slot cmd { s.withShared sh with stats := stats }

theorem CommandEffect.refl (s : Server) (slot : Fin MAX_CONNECTIONS) (cmd : ParsedCommand) :
    CommandEffect s slot cmd s := .quiet s.stats

theorem handleRegister_effect (hcmd : cmd.type = .register)
    (h : handleRegister env s slot cmd = some (s', resp)) : CommandEffect s slot cmd s' := by
  have hgrow := handleRegister_users hcmd h
  have hframe : s' = { s with users := s'.users } := by
    unfold handleRegister at h
    split at h
    · cases h
      rfl
    · split at h
      · cases h
        rfl
      · split at h
        · cases h
          rfl
        · obtain ⟨r, -, he⟩ := Option.map_eq_some_iff.mp h
          cases he
          rfl
  rw [hframe]
  exact .register hgrow

theorem handleLogin_effect (hcmd : cmd.type = .login)
    (h : handleLogin env s slot cmd = some (s', resp)) : CommandEffect s slot cmd s' := by
  simp only [handleLogin] at h
  split at h
  · cases h
    exact .refl s slot cmd
  · split at h
    · cases h
      exact .refl s slot cmd
    · rename_i hauth
      rw [Bool.not_eq_true] at hauth
      unfold authLogin at h
      cases hscan : authLoginScan s.users (cmd.arg 0) (cmd.arg 1) (env.fault 0) with
      | none =>
        simp only [hscan] at h
        cases h
        exact .quiet _
      | some r =>
        obtain ⟨hget, hname, hpw⟩ := authLoginScan_some hscan
        simp only [hscan] at h
        split at h
        · cases h
          exact .login hcmd hget hname hpw hauth
        · rename_i hrc
          cases h
          -- no session has this descriptor
          have hsame : (authLoginSection s.auth (s.auth.sessions slot).fd r.1 r.2).1 = s.auth := by
            unfold authLoginSection at hrc ⊢
            split at hrc
            · exact absurd rfl hrc
            · rfl
          rw [hsame]
          exact .quiet _

theorem handleCreateEvent_effect (h : handleCreateEvent libc env s slot cmd = some (s', resp)) :
    CommandEffect s slot cmd s' := by
  unfold handleCreateEvent at h
  split at h
  · cases h
    exact .refl s slot cmd
  · obtain ⟨⟨events, seats, rc, out⟩, hcreate, he⟩ := Option.map_eq_some_iff.mp h
    have hkeep := fun (id : Nat) (e : EventRow) (hg : s.events.get? id = some e) =>
      eventMgrCreateEvent_keeps hcreate hg
    simp only at he
    split at he
    · cases he
      exact .create seats _ hkeep
    · cases he
      exact .create seats _ hkeep

theorem handleDeleteEvent_effect (hcmd : cmd.type = .deleteEvent)
    (h : handleDeleteEvent env s slot cmd = some (s', resp)) : CommandEffect s slot cmd s' := by
  simp only [handleDeleteEvent] at h
  split at h
  · cases h
    exact .refl s slot cmd
  · split at h
    · cases h
      exact .refl s slot cmd
    · rename_i event hfind
      split at h
      · cases h
        exact .refl s slot cmd
      · rename_i hallowed
        cases h
        refine .delete _ hcmd (findRecord_ok hfind) ?_
        by_contra hnot
        rw [not_or] at hnot
        exact hallowed hnot

theorem handleBook_effect (h : handleBook env s slot cmd = some (s', resp)) :
    CommandEffect s slot cmd s' := by
  simp only [handleBook] at h
  split at h
  · cases h
    exact .refl s slot cmd
  · obtain ⟨⟨sh, rc, out⟩, hrun, he⟩ := Option.map_eq_some_iff.mp h
    have hkept := runCall_bookings hrun (knows_entry _ _)
    have heffect : ∀ stats, CommandEffect s slot cmd { s.withShared sh with stats := stats } :=
      fun stats => .engine _ stats hkept rfl (fun hc => by cases hc)
    simp only at he
    split at he <;> cases he <;> exact heffect _

theorem handleCancel_effect (hcmd : cmd.type = .cancel)
    (h : handleCancel env s slot cmd = some (s', resp)) : CommandEffect s slot cmd s' := by
  simp only [handleCancel] at h
  split at h
  · cases h
    exact .refl s slot cmd
  · obtain ⟨⟨sh, rc, out⟩, hrun, he⟩ := Option.map_eq_some_iff.mp h
    have hkept := runCall_bookings hrun (knows_entry _ _)
    have heffect : ∀ stats, CommandEffect s slot cmd { s.withShared sh with stats := stats } :=
      fun stats => .engine _ stats hkept rfl (fun _ => hcmd)
    simp only at he
    split at he <;> cases he <;> exact heffect _

/-- Every command has one of these effects. -/
theorem handleCommand_effect (h : handleCommand libc env s slot cmd = some (s', resp)) :
    CommandEffect s slot cmd s' := by
  unfold handleCommand at h
  split at h
  · rename_i hcmd
    exact handleRegister_effect hcmd h
  · rename_i hcmd
    exact handleLogin_effect hcmd h
  · cases h
    exact .logout
  · exact handleCreateEvent_effect h
  · rename_i hcmd
    exact handleDeleteEvent_effect hcmd h
  all_goals first
    | exact handleBook_effect h
    | exact handleCancel_effect (by assumption) h
    | (cases h; exact .refl s slot cmd)

/-- One pass of the command loop changes nothing but the statistics, or executes a command. -/
theorem executeLine_effect {line : LineResult} {r : Reply}
    (h : executeLine libc env s slot line = some r) :
    (∃ stats, r.server = { s with stats := stats }) ∨
      ∃ buf cmd stats, line = .line buf ∧ parseCommand (stripEol buf) = some cmd ∧
        r.quit = false ∧ CommandEffect { s with stats := stats } slot cmd r.server := by
  cases line with
  | oversized =>
    cases h
    exact Or.inl ⟨s.stats, rfl⟩
  | closed =>
    cases h
    exact Or.inl ⟨s.stats, rfl⟩
  | line buf =>
    simp only [executeLine] at h
    split at h
    · cases h
      exact Or.inl ⟨s.stats, rfl⟩
    · split at h
      · cases h
        exact Or.inl ⟨_, rfl⟩
      · rename_i cmd hparse
        simp only [executeCommand] at h
        split at h
        · cases h
          exact Or.inl ⟨_, rfl⟩
        · split at h
          · cases h
            exact Or.inl ⟨_, rfl⟩
          · obtain ⟨⟨s₁, resp₁⟩, hcmd, rfl⟩ := Option.map_eq_some_iff.mp h
            exact Or.inr ⟨buf, cmd, _, rfl, hparse, rfl, handleCommand_effect hcmd⟩

end Commands

/-! ## The sessions of the connections -/

/-- Every open connection has a session of its own, and every session in use a connection. -/
structure ClientSys.Linked (s : ClientSys) : Prop where
  conn : ∀ fd slot, s.conns fd = some slot → (s.server.auth.sessions slot).fd = fd ∧ 0 ≤ fd
  slot : ∀ slot, (s.server.auth.sessions slot).fd ≠ -1 →
    s.conns (s.server.auth.sessions slot).fd = some slot

/-- The slot found by descriptor is the slot of the connection. -/
theorem ClientSys.Linked.findSlot {s : ClientSys} (h : s.Linked) {fd : Int}
    {slot : Fin MAX_CONNECTIONS} (hc : s.conns fd = some slot) :
    s.server.auth.findSlot fd = some slot := by
  obtain ⟨hfd, hpos⟩ := h.conn fd slot hc
  cases hf : s.server.auth.findSlot fd with
  | none => exact absurd hfd (AuthManager.findSlot_none hf slot)
  | some j =>
    have hj := AuthManager.findSlot_some hf
    have hused : (s.server.auth.sessions j).fd ≠ -1 := by omega
    have hcj := h.slot j hused
    rw [hj, hc] at hcj
    rw [Option.some.inj hcj]

/-! ## What one client step can do -/

/-- One step of a client. -/
abbrev ClientStep := Transition ClientSys ClientAct

/-- The step executes the command `cmd` in the session `slot`. -/
def ClientStep.Executes (t : ClientStep) (slot : Fin MAX_CONNECTIONS) (cmd : ParsedCommand) : Prop :=
  ∃ fd buf env, t.act = .command fd (.line buf) env ∧ t.before.conns fd = some slot ∧
    parseCommand (stripEol buf) = some cmd

/-- The session of a slot before the step. -/
def ClientStep.session (t : ClientStep) (slot : Fin MAX_CONNECTIONS) : Session :=
  t.before.server.auth.sessions slot

/-- **What a step can do**: connect, execute a command, disconnect, or count. -/
inductive ClientEffect (s : ClientSys) (a : ClientAct) : ClientSys → Prop where
  | quiet (stats : ServerStats) : ClientEffect s a { s with server := { s.server with stats := stats } }
  | connect {fd : Int} {slot : Fin MAX_CONNECTIONS} (count : Int) (stats : ServerStats) : 0 ≤ fd →
      s.conns fd = none → (s.server.auth.sessions slot).fd = -1 →
      ClientEffect s a
        { server :=
            { s.server with
              auth := ⟨Function.update s.server.auth.sessions slot (sessionInit fd), count⟩
              stats := stats }
          conns := Function.update s.conns fd (some slot) }
  | command {slot : Fin MAX_CONNECTIONS} {cmd : ParsedCommand} {server : Server}
      (stats : ServerStats) : (∀ s', ClientStep.Executes ⟨s, a, s'⟩ slot cmd) →
      CommandEffect { s.server with stats := stats } slot cmd server →
      ClientEffect s a { s with server := server }
  | closed {fd : Int} (stats : ServerStats) : s.conns fd ≠ none →
      ClientEffect s a
        { server := { s.server with auth := authRemoveSession s.server.auth fd, stats := stats }
          conns := Function.update s.conns fd none }

theorem ClientSys.step_effect {libc : FloatLibc} {s s' : ClientSys} {a : ClientAct}
    (h : s.step libc a = some s') : ClientEffect s a s' := by
  cases a with
  | connect fd =>
    simp only [ClientSys.step] at h
    split at h
    · rename_i hfd
      unfold authCreateSession at h
      cases hfree : s.server.auth.findSlot (-1) with
      | none =>
        simp only [hfree, Option.map_none] at h
        cases h
        exact .quiet _
      | some slot =>
        simp only [hfree, Option.map_some] at h
        cases h
        exact .connect _ _ hfd.1 hfd.2 (AuthManager.findSlot_some hfree)
    · cases h
  | command fd line env =>
    simp only [ClientSys.step] at h
    split at h
    · cases h
    · rename_i slot hslot
      obtain ⟨r, hr, he⟩ := Option.map_eq_some_iff.mp h
      obtain ⟨stats, hserver⟩ | ⟨buf, cmd, stats, rfl, hparse, hquit, heffect⟩ := executeLine_effect hr
      · split at he
        · cases he
          simp only [ClientSys.cleanup, hserver]
          exact .closed _ (by rw [hslot]; simp)
        · cases he
          rw [hserver]
          exact .quiet stats
      · rw [hquit] at he
        cases he
        exact .command stats (fun _ => ⟨fd, buf, env, rfl, hslot, hparse⟩) heffect
  | disconnect fd =>
    simp only [ClientSys.step] at h
    split at h
    · cases h
    · rename_i hopen
      cases h
      exact .closed _ hopen

section Steps

variable {s s' : ClientSys} {a : ClientAct}

/-- Users join only through `REGISTER`, as customers or by an admin's hand. -/
theorem ClientEffect.users (h : ClientEffect s a s') :
    (∀ id u, s.server.users.get? id = some u → s'.server.users.get? id = some u) ∧
    ∀ id u, s'.server.users.get? id = some u → s.server.users.get? id = some u ∨
      s.server.users.get? id = none ∧ ∃ slot cmd, (∀ t, ClientStep.Executes ⟨s, a, t⟩ slot cmd) ∧
        cmd.type = .register ∧ (u.role = .customer ∨
          u.role = .organizer ∧ (s.server.auth.sessions slot).role = .admin) := by
  cases h with
  | command stats hexec heffect =>
    cases heffect with
    | register hgrow =>
      refine ⟨hgrow.keep, fun id u hu => (hgrow.join id u hu).imp_right ?_⟩
      rintro ⟨hnone, hcmd, hrole⟩
      exact ⟨hnone, _, _, hexec, hcmd, hrole⟩
    | _ => exact ⟨fun _ _ h => h, fun _ _ h => Or.inl h⟩
  | _ => exact ⟨fun _ _ h => h, fun _ _ h => Or.inl h⟩

/-- An event disappears only through `DELETE_EVENT` by an admin or its organizer. -/
theorem ClientEffect.events (h : ClientEffect s a s') {id : Nat} {e : EventRow}
    (he : s.server.events.get? id = some e) (hgone : s'.server.events.get? id = none) :
    ∃ slot cmd, (∀ t, ClientStep.Executes ⟨s, a, t⟩ slot cmd) ∧ cmd.type = .deleteEvent ∧
      ((s.server.auth.sessions slot).role = .admin ∨
        (s.server.auth.sessions slot).userId = e.organizerId) := by
  have hsame : s'.server.events.get? id = s.server.events.get? id → False := by
    intro h
    rw [hgone, he] at h
    cases h
  cases h with
  | command stats hexec heffect =>
    cases heffect with
    | create seats stats' hkeep => exact (hsame ((hkeep id e he).trans he.symm)).elim
    | @delete eventId e' fault hcmd hget hallowed =>
      rcases eq_or_ne id eventId with rfl | hne
      · obtain rfl : e' = e := Option.some.inj (hget.symm.trans he)
        exact ⟨_, _, hexec, hcmd, hallowed.imp_right Eq.symm⟩
      · exact (hsame ((deleteRecord_get? he hne).trans he.symm)).elim
    | _ => exact (hsame rfl).elim
  | _ => exact (hsame rfl).elim

/-- A booking becomes cancelled only through `CANCEL` by its user. -/
theorem ClientEffect.bookings (h : ClientEffect s a s') {id : Nat} {b b' : BookingRecord}
    (hb : s.server.bookings.get? id = some b) (hb' : s'.server.bookings.get? id = some b')
    (hne : b' ≠ b) :
    ∃ slot cmd, (∀ t, ClientStep.Executes ⟨s, a, t⟩ slot cmd) ∧ cmd.type = .cancel ∧
      (s.server.auth.sessions slot).userId = b.userId := by
  have hsame : s'.server.bookings = s.server.bookings → False := by
    intro h
    rw [h, hb] at hb'
    exact hne (Option.some.inj hb').symm
  cases h with
  | command stats hexec heffect =>
    cases heffect with
    | @engine sh c stats' hkept huser hcmd =>
      obtain ⟨-, hnone, -⟩ | ⟨r, hr, rfl | ⟨hc, -⟩⟩ := hkept.rows id b' hb'
      · rw [show s.server.bookings.get? id = none from hnone] at hb
        cases hb
      · exact absurd (Option.some.inj (hr.symm.trans hb)) hne
      · obtain rfl : r = b := Option.some.inj (hr.symm.trans hb)
        subst hc
        exact ⟨_, _, hexec, hcmd rfl, huser.symm⟩
    | _ => exact (hsame rfl).elim
  | _ => exact (hsame rfl).elim

/-- What a step does to one session. -/
inductive SessionMove (s : ClientSys) (a : ClientAct) (slot : Fin MAX_CONNECTIONS) (after : Session) :
    Prop where
  | keep : after = s.server.auth.sessions slot → SessionMove s a slot after
  /-- A new connection, a logout, or the end of the connection. -/
  | reset : after.authenticated = false → after.role = .guest → after.userId = 0 →
      SessionMove s a slot after
  | login {cmd : ParsedCommand} {userId : Nat} {user : UserRecord} :
      (∀ t, ClientStep.Executes ⟨s, a, t⟩ slot cmd) → cmd.type = .login →
      s.server.users.get? userId = some user → user.username = cmd.arg 0 →
      etpVerifyPassword (cmd.arg 1) user.passwordHash = true →
      after = (s.server.auth.sessions slot).login userId user → SessionMove s a slot after

/-- A change of one slot. -/
theorem SessionMove.update {i j : Fin MAX_CONNECTIONS} {session : Session}
    (h : SessionMove s a i session) :
    SessionMove s a j (Function.update s.server.auth.sessions i session j) := by
  rcases eq_or_ne j i with rfl | hne
  · rwa [Function.update_self]
  · rw [Function.update_of_ne hne]
    exact .keep rfl

/-- Every session changes only in these ways. -/
theorem ClientEffect.sessions (h : ClientEffect s a s') (hl : s.Linked)
    (slot : Fin MAX_CONNECTIONS) : SessionMove s a slot (s'.server.auth.sessions slot) := by
  cases h with
  | quiet stats => exact .keep rfl
  | connect count stats hfd hconn hfree => exact SessionMove.update (.reset rfl rfl rfl)
  | @closed fd stats hopen =>
    simp only [authRemoveSession]
    split
    · exact SessionMove.update (.reset rfl rfl rfl)
    · exact .keep rfl
  | @command i cmd server stats hexec heffect =>
    obtain ⟨fd, buf, env, -, hconn, -⟩ := hexec s
    have hfind := hl.findSlot hconn
    rw [← (hl.conn fd i hconn).1] at hfind
    cases heffect with
    | @login userId user hcmd hget hname hpw hauth =>
      simp only [authLoginSection, hfind]
      exact SessionMove.update (.login hexec hcmd hget hname hpw rfl)
    | logout =>
      simp only [authLogout, hfind]
      split
      · exact SessionMove.update (.reset rfl rfl rfl)
      · exact .keep rfl
    | _ => exact .keep rfl

/-- A change of one session that keeps its descriptor keeps the links. -/
theorem ClientSys.Linked.setSlot (hl : s.Linked) (i : Fin MAX_CONNECTIONS) (session : Session)
    (hfd : session.fd = (s.server.auth.sessions i).fd) {server : Server}
    (hauth : server.auth.sessions = Function.update s.server.auth.sessions i session) :
    ClientSys.Linked { s with server := server } := by
  have hsame : ∀ j, (server.auth.sessions j).fd = (s.server.auth.sessions j).fd := by
    intro j
    rw [hauth]
    rcases eq_or_ne j i with rfl | hne
    · rw [Function.update_self, hfd]
    · rw [Function.update_of_ne hne]
  refine ⟨fun fd j hc => ?_, fun j hj => ?_⟩
  · show (server.auth.sessions j).fd = fd ∧ 0 ≤ fd
    rw [hsame j]
    exact hl.conn fd j hc
  · show s.conns (server.auth.sessions j).fd = some j
    rw [hsame j]
    exact hl.slot j (by rw [← hsame j]; exact hj)

theorem ClientEffect.linked (h : ClientEffect s a s') (hl : s.Linked) : s'.Linked := by
  cases h with
  | quiet stats => exact ⟨hl.conn, hl.slot⟩
  | @connect fd i count stats hpos hconn hfree =>
    -- the slot was free, so no open connection uses it
    have hother : ∀ fd' j, s.conns fd' = some j → j ≠ i := by
      rintro fd' j hc rfl
      obtain ⟨hj, hj0⟩ := hl.conn fd' j hc
      omega
    refine ⟨fun fd' j hc => ?_, fun j hj => ?_⟩
    · simp only at hc ⊢
      rcases eq_or_ne fd' fd with rfl | hne
      · rw [Function.update_self] at hc
        cases hc
        rw [Function.update_self]
        exact ⟨rfl, hpos⟩
      · rw [Function.update_of_ne hne] at hc
        rw [Function.update_of_ne (hother fd' j hc)]
        exact hl.conn fd' j hc
    · simp only at hj ⊢
      rcases eq_or_ne j i with rfl | hne
      · rw [Function.update_self]
        exact Function.update_self _ _ _
      · rw [Function.update_of_ne hne] at hj ⊢
        have hcj := hl.slot j hj
        rw [Function.update_of_ne]
        · exact hcj
        · intro he
          rw [he, hconn] at hcj
          cases hcj
  | @command i cmd server stats hexec heffect =>
    obtain ⟨fd, buf, env, -, hconn, -⟩ := hexec s
    have hfind := hl.findSlot hconn
    rw [← (hl.conn fd i hconn).1] at hfind
    have hsame : server.auth = s.server.auth → ClientSys.Linked { s with server := server } :=
      fun he => hl.setSlot i (s.server.auth.sessions i) rfl (by rw [he, Function.update_eq_self])
    cases heffect with
    | @login userId user hcmd hget hname hpw hauth =>
      refine hl.setSlot i ((s.server.auth.sessions i).login userId user) rfl ?_
      simp only [authLoginSection, hfind]
      rfl
    | logout =>
      by_cases hauth : (s.server.auth.sessions i).authenticated = true
      · refine hl.setSlot i (s.server.auth.sessions i).logout rfl ?_
        simp only [authLogout, hfind, hauth, if_true]
        rfl
      · apply hsame
        simp only [authLogout, hfind, hauth]
        rfl
    | _ => exact hsame rfl
  | @closed fd stats hopen =>
    obtain ⟨i, hconn⟩ := Option.ne_none_iff_exists'.mp hopen
    have hfind := hl.findSlot hconn
    have hfd := (hl.conn fd i hconn).1
    simp only [authRemoveSession, hfind]
    refine ⟨fun fd' j hc => ?_, fun j hj => ?_⟩
    · simp only at hc ⊢
      have hne : fd' ≠ fd := by
        rintro rfl
        rw [Function.update_self] at hc
        cases hc
      rw [Function.update_of_ne hne] at hc
      have hji : j ≠ i := by
        rintro rfl
        exact hne ((hl.conn fd' j hc).1.symm.trans hfd)
      rw [show (s.server.auth.setSlot i (sessionInit (-1))).sessions j = s.server.auth.sessions j from
        Function.update_of_ne hji _ _]
      exact hl.conn fd' j hc
    · simp only at hj ⊢
      have hji : j ≠ i := by
        rintro rfl
        apply hj
        rw [show (s.server.auth.setSlot j (sessionInit (-1))).sessions j = sessionInit (-1) from
          Function.update_self _ _ _]
        rfl
      have hkeep : (s.server.auth.setSlot i (sessionInit (-1))).sessions j =
          s.server.auth.sessions j := Function.update_of_ne hji _ _
      rw [hkeep] at hj ⊢
      have hcj := hl.slot j hj
      rw [Function.update_of_ne]
      · exact hcj
      · intro he
        rw [he, hconn] at hcj
        exact hji (Option.some.inj hcj).symm

end Steps

/-! ## Whole runs -/

/-- Where a user comes from: the bootstrap, a registration as a customer, or a registration as an
organizer in a session that was an admin's. -/
def UserOrigin (now : Int) (tr : List ClientStep) (id : Nat) (u : UserRecord) : Prop :=
  id = 1 ∧ u = newUser (text "admin") (text "admin123") .admin now ∨
  u.role = .customer ∨
  u.role = .organizer ∧ ∃ t ∈ tr, ∃ slot cmd, t.Executes slot cmd ∧ cmd.type = .register ∧
    (t.session slot).role = .admin ∧ t.before.server.users.get? id = none ∧
    t.after.server.users.get? id = some u

/-- The session comes from a login as user `id`: the latest step that changed it is a `LOGIN` whose
password matched the stored hash. -/
def LastLogin (tr : List ClientStep) (slot : Fin MAX_CONNECTIONS) (session : Session) (id : Nat)
    (u : UserRecord) : Prop :=
  ∃ later t earlier cmd, tr = later ++ t :: earlier ∧ t.Executes slot cmd ∧ cmd.type = .login ∧
    t.before.server.users.get? id = some u ∧ u.username = cmd.arg 0 ∧
    etpVerifyPassword (cmd.arg 1) u.passwordHash = true ∧
    t.after.server.auth.sessions slot = session ∧
    ∀ t' ∈ later, t'.after.server.auth.sessions slot = t'.before.server.auth.sessions slot

/-- What holds of a state and of the steps that led to it. -/
structure Audit (now : Int) (tr : List ClientStep) (s : ClientSys) : Prop where
  linked : s.Linked
  users : ∀ id u, s.server.users.get? id = some u → UserOrigin now tr id u
  guests : ∀ slot, (s.server.auth.sessions slot).authenticated = false →
    (s.server.auth.sessions slot).role = .guest ∧ (s.server.auth.sessions slot).userId = 0
  logins : ∀ slot, (s.server.auth.sessions slot).authenticated = true →
    ∃ id u, s.server.users.get? id = some u ∧ (s.server.auth.sessions slot).userId = id ∧
      (s.server.auth.sessions slot).role = u.role ∧
      LastLogin tr slot (s.server.auth.sessions slot) id u

theorem serverInit_users (now : Int) : (serverInit now).users =
    (OTable.empty 1).insert (newUser (text "admin") (text "admin123") .admin now) := rfl

theorem audit_init (now : Int) : Audit now [] (ClientSys.init now) where
  linked := ⟨fun fd slot hc => (by cases hc), fun slot hslot => absurd rfl hslot⟩
  users := by
    intro id u hu
    rw [show (ClientSys.init now).server.users = _ from serverInit_users now] at hu
    rcases eq_or_ne id 1 with rfl | hne
    · left
      refine ⟨rfl, ?_⟩
      have hself := OTable.get?_insert_self (OTable.empty 1)
        (newUser (text "admin") (text "admin123") .admin now)
      exact Option.some.inj (hu.symm.trans hself)
    · rw [OTable.get?_insert_ne hne, OTable.get?_empty] at hu
      cases hu
  guests := fun _ _ => ⟨rfl, rfl⟩
  logins := fun _ h => by cases h

theorem LastLogin.cons {tr : List ClientStep} {slot : Fin MAX_CONNECTIONS} {session : Session}
    {id : Nat} {u : UserRecord} (h : LastLogin tr slot session id u) {t : ClientStep}
    (ht : t.after.server.auth.sessions slot = t.before.server.auth.sessions slot) :
    LastLogin (t :: tr) slot session id u := by
  obtain ⟨later, t₀, earlier, cmd, rfl, hexec, hcmd, hget, hname, hpw, hafter, hlater⟩ := h
  refine ⟨t :: later, t₀, earlier, cmd, rfl, hexec, hcmd, hget, hname, hpw, hafter, ?_⟩
  intro t' ht'
  rcases List.mem_cons.mp ht' with rfl | ht'
  · exact ht
  · exact hlater t' ht'

/-- **One step** keeps the account of where users and sessions come from. -/
theorem Audit.step {now : Int} {tr : List ClientStep} {s s' : ClientSys} {a : ClientAct}
    (h : Audit now tr s) (heffect : ClientEffect s a s') : Audit now (⟨s, a, s'⟩ :: tr) s' := by
  obtain ⟨hkeep, hjoin⟩ := heffect.users
  refine ⟨heffect.linked h.linked, ?_, ?_, ?_⟩
  · intro id u hu
    obtain hold | ⟨hnone, slot, cmd, hexec, hcmd, hrole⟩ := hjoin id u hu
    · obtain hadmin | hcust | ⟨horg, t, ht, hrest⟩ := h.users id u hold
      · exact Or.inl hadmin
      · exact Or.inr (Or.inl hcust)
      · exact Or.inr (Or.inr ⟨horg, t, List.mem_cons_of_mem _ ht, hrest⟩)
    · obtain hcust | ⟨horg, hadmin⟩ := hrole
      · exact Or.inr (Or.inl hcust)
      · exact Or.inr (Or.inr ⟨horg, _, List.mem_cons_self, slot, cmd, hexec s', hcmd, hadmin, hnone,
          hu⟩)
  · intro slot hauth
    cases heffect.sessions h.linked slot with
    | keep he =>
      rw [he] at hauth ⊢
      exact h.guests slot hauth
    | reset _ hrole huser => exact ⟨hrole, huser⟩
    | login _ _ _ _ _ he =>
      rw [he] at hauth
      cases hauth
  · intro slot hauth
    cases heffect.sessions h.linked slot with
    | keep he =>
      rw [he] at hauth ⊢
      obtain ⟨id, u, hu, huser, hrole, hlast⟩ := h.logins slot hauth
      exact ⟨id, u, hkeep id u hu, huser, hrole, hlast.cons he⟩
    | reset hno _ _ =>
      rw [hno] at hauth
      cases hauth
    | @login cmd id u hexec hcmd hget hname hpw he =>
      refine ⟨id, u, hkeep id u hget, by rw [he]; rfl, by rw [he]; rfl, ?_⟩
      exact ⟨[], _, tr, cmd, rfl, hexec s', hcmd, hget, hname, hpw, rfl, fun t ht => by cases ht⟩

/-- **No privilege escalation.**  In every run from a freshly bootstrapped server, whatever the
clients send and whatever storage does: every user is the bootstrap admin, a customer, or an
organizer registered in an admin's session; every authenticated session is that of a stored user
whose password hash matched at its last login, and every other session is a guest's; an event
disappears only through `DELETE_EVENT` by an admin or its organizer; a booking becomes cancelled only
through `CANCEL` by its user. -/
theorem no_privilege_escalation (libc : FloatLibc) (now : Int) {tr : List ClientStep} {s : ClientSys}
    (h : History (ClientSys.step libc) (ClientSys.init now) tr s) :
    (∀ id u, s.server.users.get? id = some u → UserOrigin now tr id u) ∧
    (∀ slot, (s.server.auth.sessions slot).authenticated = true →
      ∃ id u, s.server.users.get? id = some u ∧ (s.server.auth.sessions slot).userId = id ∧
        (s.server.auth.sessions slot).role = u.role ∧
        LastLogin tr slot (s.server.auth.sessions slot) id u) ∧
    (∀ slot, (s.server.auth.sessions slot).authenticated = false →
      (s.server.auth.sessions slot).role = .guest ∧ (s.server.auth.sessions slot).userId = 0) ∧
    (∀ t ∈ tr, ∀ id e, t.before.server.events.get? id = some e →
      t.after.server.events.get? id = none →
      ∃ slot cmd, t.Executes slot cmd ∧ cmd.type = .deleteEvent ∧
        ((t.session slot).role = .admin ∨ (t.session slot).userId = e.organizerId)) ∧
    ∀ t ∈ tr, ∀ id b b', t.before.server.bookings.get? id = some b → b.status ≠ .cancelled →
      t.after.server.bookings.get? id = some b' → b'.status = .cancelled →
      ∃ slot cmd, t.Executes slot cmd ∧ cmd.type = .cancel ∧ (t.session slot).userId = b.userId := by
  have audit : Audit now tr s := History.invariant (audit_init now)
    (fun _ _ _ _ hi hs => hi.step (ClientSys.step_effect hs)) h
  refine ⟨audit.users, audit.logins, audit.guests, ?_, ?_⟩
  · intro t ht id e he hgone
    obtain ⟨slot, cmd, hexec, hrest⟩ := (ClientSys.step_effect (h.step_of_mem ht)).events he hgone
    exact ⟨slot, cmd, hexec t.after, hrest⟩
  · intro t ht id b b' hb hst hb' hst'
    have hne : b' ≠ b := by
      rintro rfl
      exact hst hst'
    obtain ⟨slot, cmd, hexec, hrest⟩ :=
      (ClientSys.step_effect (h.step_of_mem ht)).bookings hb hb' hne
    exact ⟨slot, cmd, hexec t.after, hrest⟩

/-- The first session slot. -/
def firstSlot : Fin MAX_CONNECTIONS := ⟨0, by decide⟩

/-- A command line typed on connection 4, with storage that does not fail. -/
def typed (line : String) : ClientAct := .command 4 (.line (text line)) ⟨0, fun _ => .none, [], fun _ => true⟩

/-- The admin logs in and registers an organizer. -/
theorem no_privilege_escalation_organizer : ∃ tr s,
    History (ClientSys.step noFloats) (ClientSys.init 0) tr s ∧
      ∃ u, s.server.users.get? 2 = some u ∧ u.role = .organizer ∧ UserOrigin 0 tr 2 u := by
  have hrun : (runHistory (ClientSys.step noFloats) [] (ClientSys.init 0)
      [.connect 4, typed "LOGIN admin admin123", typed "REGISTER olga secret organizer"]).any
        (fun r => (r.2.server.users.get? 2).any (fun u => u.role == .organizer)) = true := by
    decide +kernel
  obtain ⟨⟨tr, s⟩, hr, hcheck⟩ := (Option.any_eq_true _ _).mp hrun
  obtain ⟨u, hu, hrole⟩ := (Option.any_eq_true _ _).mp hcheck
  have hist := History.of_runHistory .nil hr
  exact ⟨tr, s, hist, u, hu, by simpa using hrole,
    (no_privilege_escalation noFloats 0 hist).1 2 u hu⟩

end Ticketing
