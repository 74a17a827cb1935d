import Ticketing.Server.Privileges
import Ticketing.Lib.Delimiter

/-!
# Response framing (`server/main.c`)

A client cuts what the server sends at the prompt.  The prompt ends in a blank, and no stored text
has a blank in it; so a response contains the prompt only where the format prints a blank behind a
text that ends in `etp>`.

* `TextInv` — no stored text contains a blank; kept by every step of every client.
* `fieldsBeforeBlank` — the stored texts that a command prints before a blank.
* `handleCommand_clean` — unless one of them ends in `etp>`, the response does not contain the prompt.
* `takesAll` — the `write`s of a `send_all` bring all its bytes to the socket.
* `responses_split` — a whole connection; `responses_not_split` — a username and a failing `write` that break it.
-/

set_option autoImplicit false

namespace Ticketing

open CText

/-! ## Stored texts have no blanks -/

/-- The texts of an event. -/
def EventRow.texts (e : EventRow) : List CStr := [e.name, e.venue, e.eventDate, e.eventTime]

/-- No stored text contains a blank. -/
structure TextInv (s : Server) : Prop where
  users : ∀ id u, s.users.get? id = some u → 32 ∉ u.username
  sessions : ∀ slot, 32 ∉ (s.auth.sessions slot).username
  events : ∀ id e, s.events.get? id = some e → ∀ f ∈ e.texts, 32 ∉ f

theorem takeToken_no_blank (p : CStr) : 32 ∉ takeToken p := by
  intro h
  have hspace := List.mem_takeWhile_imp (List.mem_of_mem_take h)
  exact absurd hspace (by decide)

theorem parseArgs_no_blank : ∀ (n : Nat) (p : CStr), ∀ a ∈ parseArgs n p, 32 ∉ a := by
  intro n
  induction n with
  | zero =>
    intro p a ha
    cases ha
  | succ n ih =>
    intro p a ha
    simp only [parseArgs] at ha
    split at ha
    · cases ha
    · rcases List.mem_cons.mp ha with rfl | ha
      · exact takeToken_no_blank _
      · exact ih _ a ha

/-- The arguments of a command contain no blank. -/
theorem parseCommand_no_blank {raw : CStr} {cmd : ParsedCommand} (h : parseCommand raw = some cmd)
    (i : Nat) : 32 ∉ cmd.arg i := by
  simp only [parseCommand] at h
  split at h
  · cases h
  · cases h
    rw [ParsedCommand.arg, List.getD_eq_getElem?_getD]
    cases hi : (parseArgs MAX_CMD_ARGS _)[i]? with
    | none => simp
    | some a => exact parseArgs_no_blank _ _ a (List.mem_of_getElem? hi)

theorem not_mem_strlcpy {size : Nat} {s : CStr} {b : UInt8} (h : b ∉ s) : b ∉ strlcpy size s :=
  fun hb => h (List.mem_of_mem_take hb)

section Commands

variable {libc : FloatLibc} {env : CmdEnv} {s s' : Server} {slot : Fin MAX_CONNECTIONS}
  {cmd : ParsedCommand} {resp : CStr}

/-- What a command can store: a username, or the texts of an event, from its arguments. -/
structure TextsFrom (s : Server) (cmd : ParsedCommand) (s' : Server) : Prop where
  users : ∀ id u, s'.users.get? id = some u → s.users.get? id = some u ∨ u.username <+: cmd.arg 0
  events : ∀ id e, s'.events.get? id = some e →
    s.events.get? id = some e ∨ ∀ f ∈ e.texts, ∃ i, f <+: cmd.arg i

theorem TextsFrom.same (husers : s'.users = s.users) (hevents : s'.events = s.events) :
    TextsFrom s cmd s' := by
  refine ⟨fun id u hu => Or.inl ?_, fun id e he => Or.inl ?_⟩
  · rwa [husers] at hu
  · rwa [hevents] at he

theorem handleRegister_texts (h : handleRegister env s slot cmd = some (s', resp)) :
    TextsFrom s cmd s' := by
  unfold handleRegister at h
  split at h
  · cases h
    exact .same rfl rfl
  · split at h
    · cases h
      exact .same rfl rfl
    · split at h
      · cases h
        exact .same rfl rfl
      · obtain ⟨⟨users, rc, out⟩, hreg, he⟩ := Option.map_eq_some_iff.mp h
        cases he
        refine ⟨fun id u hu => ?_, fun id e he => Or.inl he⟩
        unfold authRegister at hreg
        split at hreg
        · cases hreg
          exact Or.inl hu
        · obtain ⟨⟨t, r⟩, hins, hr⟩ := Option.map_eq_some_iff.mp hreg
          have htable : users = t := by
            cases r <;> cases hr <;> rfl
          subst htable
          obtain hold | ⟨rfl, rfl⟩ := insertRecord_get? hins hu
          · exact Or.inl hold
          · exact Or.inr (List.take_prefix _ _)

theorem handleLogin_texts (h : handleLogin env s slot cmd = some (s', resp)) :
    TextsFrom s cmd s' := by
  simp only [handleLogin] at h
  split at h
  · cases h
    exact .same rfl rfl
  · split at h
    · cases h
      exact .same rfl rfl
    · split at h <;> cases h <;> exact .same rfl rfl

theorem handleCreateEvent_texts (h : handleCreateEvent libc env s slot cmd = some (s', resp)) :
    TextsFrom s cmd s' := by
  unfold handleCreateEvent at h
  split at h
  · cases h
    exact .same rfl rfl
  · obtain ⟨⟨events, seats, rc, out⟩, hcreate, he⟩ := Option.map_eq_some_iff.mp h
    have hevents : s'.events = events ∧ s'.users = s.users := by
      simp only at he
      split at he <;> cases he <;> exact ⟨rfl, rfl⟩
    refine ⟨fun id u hu => Or.inl (by rwa [hevents.2] at hu), fun id e hget => ?_⟩
    rw [hevents.1] at hget
    unfold eventMgrCreateEvent at hcreate
    split at hcreate
    · cases hcreate
      exact Or.inl hget
    · split at hcreate
      · cases hcreate
        exact Or.inl hget
      · split at hcreate
        · cases hcreate
          exact Or.inl hget
        · obtain ⟨⟨t, r⟩, hins, hr⟩ := Option.bind_eq_some_iff.mp hcreate
          have htable : events = t := by
            cases r with
            | error rc =>
              cases hr
              rfl
            | ok eventId =>
              obtain ⟨seats'', -, hs⟩ := Option.map_eq_some_iff.mp hr
              cases hs
              rfl
          subst htable
          obtain hold | ⟨-, rfl⟩ := insertRecord_get? hins hget
          · exact Or.inl hold
          · right
            simp only [EventRow.texts, List.forall_mem_cons]
            exact ⟨⟨0, List.take_prefix _ _⟩, ⟨1, List.take_prefix _ _⟩, ⟨2, List.take_prefix _ _⟩,
              ⟨3, List.take_prefix _ _⟩, fun f hf => by cases hf⟩

theorem handleDeleteEvent_texts (h : handleDeleteEvent env s slot cmd = some (s', resp)) :
    TextsFrom s cmd s' := by
  simp only [handleDeleteEvent] at h
  split at h
  · cases h
    exact .same rfl rfl
  · split at h
    · cases h
      exact .same rfl rfl
    · split at h
      · cases h
        exact .same rfl rfl
      · cases h
        exact ⟨fun id u hu => Or.inl hu, fun id e he => Or.inl (deleteRecord_sub he)⟩

theorem handleBook_texts (h : handleBook env s slot cmd = some (s', resp)) : TextsFrom s cmd s' := by
  simp only [handleBook] at h
  split at h
  · cases h
    exact .same rfl rfl
  · obtain ⟨⟨sh, rc, out⟩, -, he⟩ := Option.map_eq_some_iff.mp h
    simp only at he
    split at he <;> cases he <;> exact .same rfl rfl

theorem handleCancel_texts (h : handleCancel env s slot cmd = some (s', resp)) :
    TextsFrom s cmd s' := by
  simp only [handleCancel] at h
  split at h
  · cases h
    exact .same rfl rfl
  · obtain ⟨⟨sh, rc, out⟩, -, he⟩ := Option.map_eq_some_iff.mp h
    simp only at he
    split at he <;> cases he <;> exact .same rfl rfl

/-- Every text a command stores comes from its arguments. -/
theorem handleCommand_texts (h : handleCommand libc env s slot cmd = some (s', resp)) :
    TextsFrom s cmd s' := by
  unfold handleCommand at h
  split at h
  · exact handleRegister_texts h
  · exact handleLogin_texts h
  · cases h
    exact .same rfl rfl
  · exact handleCreateEvent_texts h
  · exact handleDeleteEvent_texts h
  all_goals first
    | exact handleBook_texts h
    | exact handleCancel_texts h
    | (cases h; exact .same rfl rfl)

/-- A command keeps the sessions free of blanks. -/
theorem CommandEffect.sessions_no_blank (h : CommandEffect s slot cmd s')
    (husers : ∀ id u, s.users.get? id = some u → 32 ∉ u.username)
    (hs : ∀ slot, 32 ∉ (s.auth.sessions slot).username) :
    ∀ slot, 32 ∉ (s'.auth.sessions slot).username := by
  have hset : ∀ (i : Fin MAX_CONNECTIONS) (session : Session), 32 ∉ session.username →
      ∀ slot, 32 ∉ ((s.auth.setSlot i session).sessions slot).username := by
    intro i session hnew
    exact Function.forall_update_iff s.auth.sessions (p := fun _ x => 32 ∉ x.username) |>.mpr
      ⟨hnew, fun j _ => hs j⟩
  cases h with
  | @login userId user hcmd hget hname hpw hauth =>
    simp only [authLoginSection]
    split
    · exact hset _ _ (not_mem_strlcpy (husers userId user hget))
    · exact hs
  | logout =>
    simp only [authLogout]
    split
    · split
      · exact hset _ _ (by simp [Session.logout])
      · exact hs
    · exact hs
  | _ => exact hs

/-- A command without blanks in its arguments keeps the texts free of blanks. -/
theorem TextInv.command (h : TextInv s) (hargs : ∀ i, 32 ∉ cmd.arg i)
    (hcmd : handleCommand libc env s slot cmd = some (s', resp)) : TextInv s' := by
  have htexts := handleCommand_texts hcmd
  refine ⟨fun id u hu => ?_, (handleCommand_effect hcmd).sessions_no_blank h.users h.sessions,
    fun id e he f hf => ?_⟩
  · obtain hold | hnew := htexts.users id u hu
    · exact h.users id u hold
    · exact fun hb => hargs 0 (hnew.subset hb)
  · obtain hold | hnew := htexts.events id e he
    · exact h.events id e hold f hf
    · obtain ⟨i, hi⟩ := hnew f hf
      exact fun hb => hargs i (hi.subset hb)

/-- One pass of the command loop keeps the texts free of blanks. -/
theorem TextInv.executeLine {line : LineResult} {r : Reply} (h : TextInv s)
    (hr : executeLine libc env s slot line = some r) : TextInv r.server := by
  have hstats : ∀ stats, TextInv { s with stats := stats } := fun _ => ⟨h.users, h.sessions, h.events⟩
  cases line with
  | oversized =>
    cases hr
    exact h
  | closed =>
    cases hr
    exact h
  | line buf =>
    simp only [Ticketing.executeLine] at hr
    split at hr
    · cases hr
      exact h
    · split at hr
      · cases hr
        exact hstats _
      · rename_i cmd hparse
        simp only [executeCommand] at hr
        split at hr
        · cases hr
          exact hstats _
        · split at hr
          · cases hr
            exact hstats _
          · obtain ⟨⟨s₁, resp₁⟩, hcmd, rfl⟩ := Option.map_eq_some_iff.mp hr
            exact (hstats _).command (parseCommand_no_blank hparse) hcmd

end Commands

theorem textInv_init (now : Int) : TextInv (serverInit now) where
  users := by
    intro id u hu
    rw [serverInit_users] at hu
    rcases eq_or_ne id 1 with rfl | hne
    · have hself := OTable.get?_insert_self (OTable.empty 1)
        (newUser (text "admin") (text "admin123") .admin now)
      obtain rfl := Option.some.inj (hu.symm.trans hself)
      show (32 : UInt8) ∉ strlcpy 32 (text "admin")
      decide
    · rw [OTable.get?_insert_ne hne, OTable.get?_empty] at hu
      cases hu
  sessions := by
    intro slot
    simp [serverInit, authCreate, sessionInit]
  events := fun id e he => by cases he

theorem TextInv.remove {s : Server} (h : TextInv s) (fd : Int) (stats : ServerStats) :
    TextInv { s with auth := authRemoveSession s.auth fd, stats := stats } := by
  refine ⟨h.users, ?_, h.events⟩
  simp only [authRemoveSession]
  split
  · exact Function.forall_update_iff s.auth.sessions (p := fun _ x => 32 ∉ x.username) |>.mpr
      ⟨by simp [sessionInit], fun j _ => h.sessions j⟩
  · exact h.sessions

/-- **Every step** of every client keeps the texts free of blanks. -/
theorem TextInv.step {libc : FloatLibc} {s s' : ClientSys} {a : ClientAct} (h : TextInv s.server)
    (hs : s.step libc a = some s') : TextInv s'.server := by
  cases a with
  | connect fd =>
    simp only [ClientSys.step] at hs
    split at hs
    · unfold authCreateSession at hs
      cases hfree : s.server.auth.findSlot (-1) with
      | none =>
        simp only [hfree, Option.map_none] at hs
        cases hs
        exact ⟨h.users, h.sessions, h.events⟩
      | some slot =>
        simp only [hfree, Option.map_some] at hs
        cases hs
        exact ⟨h.users, Function.forall_update_iff s.server.auth.sessions
          (p := fun _ x => 32 ∉ x.username) |>.mpr
            ⟨by simp [sessionInit], fun j _ => h.sessions j⟩, h.events⟩
    · cases hs
  | command fd line env =>
    simp only [ClientSys.step] at hs
    split at hs
    · cases hs
    · obtain ⟨r, hr, he⟩ := Option.map_eq_some_iff.mp hs
      have hserver := h.executeLine hr
      split at he <;> cases he
      · exact hserver.remove fd _
      · exact hserver
  | disconnect fd =>
    simp only [ClientSys.step] at hs
    split at hs
    · cases hs
    · cases hs
      exact h.remove fd _

/-! ## Pieces of a response -/

/-- A text with no `>` in it is harmless. -/
theorem harmless_of_no_angle {l : CStr} (h : 62 ∉ l) : Harmless prompt l :=
  harmless_of_not_mem (a := 62) (by decide) h

theorem no_angle_decimal (n : Nat) : 62 ∉ decimal n := by
  intro h
  exact absurd (isDigit_of_mem_decimal h) (by decide)

theorem no_angle_decimalInt (n : Int) : 62 ∉ decimalInt n := by
  cases n with
  | ofNat n => exact no_angle_decimal n
  | negSucc n =>
    rw [decimalInt, List.mem_cons, not_or]
    exact ⟨by decide, no_angle_decimal _⟩

theorem no_angle_twoDigits (n : Int) : 62 ∉ ServerStats.twoDigits n := by
  rw [ServerStats.twoDigits, List.mem_append, not_or]
  refine ⟨fun h => ?_, no_angle_decimalInt n⟩
  exact absurd (List.eq_of_mem_replicate h) (by decide)

theorem no_angle_padRight {w : Nat} {l : CStr} (h : 62 ∉ l) : 62 ∉ padRight w l := by
  rw [padRight, List.mem_append, not_or]
  refine ⟨h, fun hb => ?_⟩
  exact absurd (List.eq_of_mem_replicate hb) (by decide)

/-- A field behind a blank, with no blank in it, that does not end in `etp>`. -/
structure CleanField (f : CStr) : Prop where
  blank : 32 ∉ f
  ending : ¬ text "etp>" <:+ f

section Pieces

variable {c f rest : CStr}

theorem harmless_quiet (hc : 62 ∉ c) (h : Harmless prompt rest) : Harmless prompt (c ++ rest) :=
  (harmless_of_no_angle hc).append h

theorem harmless_field (hc : Neutral prompt c) (hf : CleanField f) (h : Harmless prompt rest) :
    Harmless prompt (c ++ (f ++ rest)) := by
  rw [← List.append_assoc]
  exact (hc.field (a := 32) (by decide) hf.blank
    (by rw [show prompt.dropLast = text "etp>" by decide]; exact hf.ending)).append h

/-- A padded field. -/
theorem harmless_padded (w : Nat) (hc : Neutral prompt c) (hf : CleanField f)
    (h : Harmless prompt rest) : Harmless prompt (c ++ (padRight w f ++ rest)) := by
  rw [padRight, List.append_assoc]
  refine harmless_field hc hf (harmless_quiet (fun hb => ?_) h)
  exact absurd (List.eq_of_mem_replicate hb) (by decide)

/-- A field before a text that resets the matching, whatever it ends in. -/
theorem harmless_quoted (hf : 32 ∉ f) (hc : Sealed prompt c) (h : Harmless prompt rest) :
    Harmless prompt (f ++ (c ++ rest)) := by
  rw [← List.append_assoc]
  exact ((hc.field (a := 32) (by decide) hf).harmless (by decide)).append h

end Pieces

theorem not_infix_prompt {l : CStr} (h : Intact prompt l) : ¬ prompt <:+: l :=
  h.absent (by decide) (by decide)

/-- `format_response` writes the status word, the payload and a newline, or the beginning of it. -/
theorem formatResponse_cut (size : Nat) (status : ResponseStatus) (payload : CStr) :
    formatResponse size status payload <+: statusWord status ++ payload ++ [10] := by
  simp only [formatResponse, List.append_assoc, List.prefix_append_right_inj]
  split
  · rw [List.take_of_length_le (by omega)]
  · rw [List.append_nil]
    exact (List.take_prefix _ _).trans (List.prefix_append _ _)

/-- A response with an intact payload. -/
theorem formatResponse_clean {size : Nat} {status : ResponseStatus} {payload : CStr}
    (h : Intact prompt payload) : ¬ prompt <:+: formatResponse size status payload := by
  have hstatus : Harmless prompt (statusWord status) := by
    cases status <;> decide
  have hseal : Sealed prompt [10] := by decide
  exact not_infix_prompt ((((hstatus.append_intact h).neutral hseal).harmless (by decide)).intact
    |>.cut (formatResponse_cut size status payload))

theorem ResponseBuffer.addRows_full {slack : Nat} {b : ResponseBuffer}
    (hb : MAX_RESPONSE_SIZE - slack ≤ b.off) (rows : List CStr) : b.addRows slack rows = b := by
  induction rows with
  | nil => rfl
  | cons row rows ih =>
    have hrec : b.addRows slack (row :: rows) =
        (if b.off < MAX_RESPONSE_SIZE - slack then b.add row else b).addRows slack rows := rfl
    rw [hrec, if_neg (by omega), ih]

/-- The rows that fit are the beginning of all the rows. -/
theorem ResponseBuffer.addRows_cut {slack : Nat} (hslack : 0 < slack) (rows : List CStr) :
    ∀ {b : ResponseBuffer}, b.off = b.out.length ∨ MAX_RESPONSE_SIZE - slack ≤ b.off →
      (b.addRows slack rows).out <+: b.out ++ rows.flatten := by
  induction rows with
  | nil =>
    intro b _
    exact List.prefix_append _ _
  | cons row rows ih =>
    intro b hb
    have hrec : b.addRows slack (row :: rows) =
        (if b.off < MAX_RESPONSE_SIZE - slack then b.add row else b).addRows slack rows := rfl
    rw [hrec, List.flatten_cons]
    split
    · rename_i hroom
      have hoff : b.off = b.out.length := by omega
      by_cases hfits : row.length ≤ MAX_RESPONSE_SIZE - b.off - 1
      · have hout : (b.add row).out = b.out ++ row := by
          rw [ResponseBuffer.add, List.take_of_length_le hfits]
        have hnext := ih (b := b.add row)
          (Or.inl (by rw [hout, List.length_append, ← hoff]; rfl))
        rwa [hout, List.append_assoc] at hnext
      · -- the row is cut, and nothing is added behind it
        have hfull : MAX_RESPONSE_SIZE - slack ≤ (b.add row).off := by
          show MAX_RESPONSE_SIZE - slack ≤ b.off + row.length
          omega
        rw [ResponseBuffer.addRows_full hfull]
        show b.out ++ row.take _ <+: _
        rw [List.prefix_append_right_inj]
        exact (List.take_prefix _ _).trans (List.prefix_append _ _)
    · rename_i hfull
      rw [ResponseBuffer.addRows_full (by omega)]
      exact List.prefix_append _ _

/-- A header and rows, cut where the buffer ends. -/
theorem ResponseBuffer.start_cut {slack : Nat} (hslack : 0 < slack) (header : CStr)
    (rows : List CStr) : ((start header).addRows slack rows).out <+: header ++ rows.flatten := by
  by_cases hfits : header.length ≤ MAX_RESPONSE_SIZE - 1
  · have hout : (start header).out = header := List.take_of_length_le hfits
    have hrows := addRows_cut hslack rows (b := start header) (Or.inl (by rw [hout]; rfl))
    rwa [hout] at hrows
  · have hfull : MAX_RESPONSE_SIZE - slack ≤ (start header).off := by
      show MAX_RESPONSE_SIZE - slack ≤ header.length
      omega
    rw [addRows_full hfull]
    exact (List.take_prefix _ _).trans (List.prefix_append _ _)

/-- A response of a header and rows that are all harmless. -/
theorem rows_clean {slack : Nat} (hslack : 0 < slack) {header : CStr} {rows : List CStr}
    (hheader : Harmless prompt header) (hrows : ∀ row ∈ rows, Harmless prompt row) :
    ¬ prompt <:+: ((ResponseBuffer.start header).addRows slack rows).out :=
  not_infix_prompt ((hheader.append (.flatten hrows)).intact.cut
    (ResponseBuffer.start_cut hslack header rows))

/-! ## The responses -/

/-- The stored texts that a command prints before a blank. -/
def fieldsBeforeBlank (env : CmdEnv) (s : Server) (slot : Fin MAX_CONNECTIONS) (cmd : ParsedCommand) :
    List CStr :=
  match cmd.type with
  | .listEvents =>
    (eventMgrListEvents s.events 50 (env.fault 0)).flatMap fun r =>
      [r.2.name.take 20, r.2.venue.take 15, r.2.eventDate, r.2.eventTime]
  | .viewEvent =>
    if cmd.argc < 1 then []
    else
      match eventMgrGetEvent s.events (idArg (cmd.arg 0)) (env.fault 0) with
      | .error _ => []
      | .ok evt => [evt.eventDate]
  | .revenue =>
    if cmd.argc ≥ 1 then
      match reportsEventRevenue s.events s.seats (idArg (cmd.arg 0)) (env.fault 0) (env.fault 1)
          (env.memory 0) with
      | .error _ => []
      | .ok rev => [rev.eventName]
    else
      (reportsOrganizerRevenue s.events s.seats (s.auth.sessions slot).userId 20 env.fault
        env.memory).map EventRevenue.eventName
  | .listUsers => (scanRecords s.users (fun _ => true) 50 (env.fault 0)).map fun r => r.2.username
  | _ => []

section Responses

variable {libc : FloatLibc} {env : CmdEnv} {s s' : Server} {slot : Fin MAX_CONNECTIONS}
  {cmd : ParsedCommand} {resp : CStr}

theorem handleRegister_clean (hargs : ∀ i, 32 ∉ cmd.arg i)
    (h : handleRegister env s slot cmd = some (s', resp)) : ¬ prompt <:+: resp := by
  unfold handleRegister at h
  split at h
  · cases h
    exact formatResponse_clean (Harmless.intact (by decide))
  · split at h
    · cases h
      exact formatResponse_clean (Harmless.intact (by decide))
    · split at h
      · cases h
        exact formatResponse_clean (Harmless.intact (by decide))
      · obtain ⟨⟨users, rc, out⟩, -, he⟩ := Option.map_eq_some_iff.mp h
        cases he
        dsimp only
        split
        · apply formatResponse_clean
          apply Harmless.intact
          simp only [List.append_assoc]
          refine .append (by decide) (harmless_quoted (hargs 0) (by decide) ?_)
          refine harmless_quiet (no_angle_decimal _) (.append (by decide) ?_)
          refine .append ?_ (by decide)
          split <;> decide
        · split
          · apply formatResponse_clean
            apply Harmless.intact
            rw [List.append_assoc, ← List.append_nil (text "' already taken")]
            exact .append (by decide) (harmless_quoted (hargs 0) (by decide) .nil)
          · exact formatResponse_clean (Harmless.intact (by decide))

theorem handleLogin_clean (hs : TextInv s) (hcmd : cmd.type = .login)
    (h : handleLogin env s slot cmd = some (s', resp)) : ¬ prompt <:+: resp := by
  have hsessions : ∀ slot, 32 ∉ (s'.auth.sessions slot).username :=
    (handleLogin_effect hcmd h).sessions_no_blank hs.users hs.sessions
  simp only [handleLogin] at h
  split at h
  · cases h
    exact formatResponse_clean (Harmless.intact (by decide))
  · split at h
    · cases h
      apply formatResponse_clean
      apply Harmless.intact
      rw [List.append_assoc, ← List.append_nil (text "'. LOGOUT first.")]
      exact .append (by decide)
        (harmless_quoted (hs.sessions slot) (by decide) .nil)
    · split at h
      · cases h
        apply formatResponse_clean
        apply Harmless.intact
        simp only [List.append_assoc]
        refine .append (by decide) (harmless_quoted (hsessions slot) (by decide) ?_)
        refine .append ?_ (by decide)
        split <;> decide
      · cases h
        exact formatResponse_clean (Harmless.intact (by decide))

theorem handleCreateEvent_clean (hargs : ∀ i, 32 ∉ cmd.arg i)
    (h : handleCreateEvent libc env s slot cmd = some (s', resp)) : ¬ prompt <:+: resp := by
  unfold handleCreateEvent at h
  split at h
  · cases h
    exact formatResponse_clean (Harmless.intact (by decide))
  · obtain ⟨⟨events, seats, rc, out⟩, -, he⟩ := Option.map_eq_some_iff.mp h
    simp only at he
    split at he
    · cases he
      apply formatResponse_clean
      apply Harmless.intact
      simp only [List.append_assoc]
      refine .append (by decide) (harmless_quoted (hargs 0) (by decide) ?_)
      refine harmless_quiet (no_angle_decimal _) (.append (by decide) ?_)
      exact harmless_quiet (no_angle_decimalInt _) (by decide)
    · cases he
      exact formatResponse_clean (Harmless.intact (by decide))

theorem handleDeleteEvent_clean (h : handleDeleteEvent env s slot cmd = some (s', resp)) :
    ¬ prompt <:+: resp := by
  simp only [handleDeleteEvent] at h
  split at h
  · cases h
    exact formatResponse_clean (Harmless.intact (by decide))
  · split at h
    · cases h
      exact formatResponse_clean (Harmless.intact (by decide))
    · split at h
      · cases h
        exact formatResponse_clean (Harmless.intact (by decide))
      · cases h
        split
        · apply formatResponse_clean
          apply Harmless.intact
          rw [List.append_assoc]
          exact .append (by decide) (harmless_quiet (no_angle_decimal _) (by decide))
        · exact formatResponse_clean (Harmless.intact (by decide))

theorem handleBook_clean (h : handleBook env s slot cmd = some (s', resp)) : ¬ prompt <:+: resp := by
  simp only [handleBook] at h
  split at h
  · cases h
    exact formatResponse_clean (Harmless.intact (by decide))
  · obtain ⟨⟨sh, rc, out⟩, -, he⟩ := Option.map_eq_some_iff.mp h
    simp only at he
    split at he
    · cases he
      apply formatResponse_clean
      apply Harmless.intact
      simp only [List.append_assoc]
      refine .append (by decide) (harmless_quiet (no_angle_decimal _) ?_)
      exact .append (by decide) (harmless_quiet (no_angle_decimal _) (by decide))
    all_goals
      cases he
      exact formatResponse_clean (Harmless.intact (by decide))

theorem handleCancel_clean (h : handleCancel env s slot cmd = some (s', resp)) :
    ¬ prompt <:+: resp := by
  simp only [handleCancel] at h
  split at h
  · cases h
    exact formatResponse_clean (Harmless.intact (by decide))
  · obtain ⟨⟨sh, rc, out⟩, -, he⟩ := Option.map_eq_some_iff.mp h
    simp only at he
    split at he
    · cases he
      apply formatResponse_clean
      apply Harmless.intact
      rw [List.append_assoc]
      exact .append (by decide) (harmless_quiet (no_angle_decimal _) (by decide))
    all_goals
      cases he
      exact formatResponse_clean (Harmless.intact (by decide))

/-- One line of `LIST_EVENTS`. -/
theorem eventLine_harmless {r : Nat × EventRow} (hfixed : ∀ n x, 62 ∉ libc.fixed n x)
    (hname : CleanField (r.2.name.take 20)) (hvenue : CleanField (r.2.venue.take 15))
    (hdate : CleanField r.2.eventDate) (htime : CleanField r.2.eventTime) :
    Harmless prompt (eventLine libc r) := by
  have hblank : Neutral prompt (text " ") := by decide
  simp only [eventLine, List.append_assoc]
  refine .append (by decide) (harmless_quiet (no_angle_padRight (no_angle_decimal _)) ?_)
  refine harmless_padded _ hblank hname (harmless_padded _ hblank hvenue ?_)
  refine harmless_padded _ hblank hdate (harmless_padded _ hblank htime ?_)
  refine .append (by decide) (harmless_quiet (no_angle_decimal _) ?_)
  refine .append (by decide) (harmless_quiet (no_angle_padRight (no_angle_decimal _)) ?_)
  exact .append (by decide) (harmless_quiet (hfixed _ _) (by decide))

theorem handleListEvents_clean (hs : TextInv s) (hfixed : ∀ n x, 62 ∉ libc.fixed n x)
    (hcmd : cmd.type = .listEvents)
    (hclean : ∀ f ∈ fieldsBeforeBlank env s slot cmd, ¬ text "etp>" <:+ f) :
    ¬ prompt <:+: handleListEvents libc env s := by
  simp only [handleListEvents]
  split
  · exact formatResponse_clean (Harmless.intact (by decide))
  · apply rows_clean (by omega)
    · simp only [List.append_assoc]
      exact .append (by decide) (harmless_quiet (no_angle_decimal _) (by decide +kernel))
    · simp only [List.forall_mem_map]
      intro r hr
      have hevent := (mem_scanRecords hr).1
      have hblank : ∀ f ∈ r.2.texts, 32 ∉ f := hs.events r.1 r.2 hevent
      simp only [EventRow.texts, List.forall_mem_cons] at hblank
      obtain ⟨hname, hvenue, hdate, htime, -⟩ := hblank
      simp only [fieldsBeforeBlank, hcmd, List.forall_mem_flatMap, List.forall_mem_cons] at hclean
      obtain ⟨hname', hvenue', hdate', htime', -⟩ := hclean r hr
      exact eventLine_harmless hfixed ⟨fun hb => hname (List.mem_of_mem_take hb), hname'⟩
        ⟨fun hb => hvenue (List.mem_of_mem_take hb), hvenue'⟩ ⟨hdate, hdate'⟩ ⟨htime, htime'⟩

theorem handleViewEvent_clean (hs : TextInv s) (hfixed : ∀ n x, 62 ∉ libc.fixed n x)
    (hcmd : cmd.type = .viewEvent)
    (hclean : ∀ f ∈ fieldsBeforeBlank env s slot cmd, ¬ text "etp>" <:+ f) :
    ¬ prompt <:+: handleViewEvent libc env s cmd := by
  simp only [fieldsBeforeBlank, hcmd] at hclean
  simp only [handleViewEvent]
  split
  · exact formatResponse_clean (Harmless.intact (by decide))
  · rename_i hargc
    rw [if_neg hargc] at hclean
    split
    · exact formatResponse_clean (Harmless.intact (by decide))
    · rename_i evt hfind
      rw [hfind] at hclean
      have hblank : ∀ f ∈ evt.texts, 32 ∉ f := hs.events _ evt (findRecord_ok hfind)
      simp only [EventRow.texts, List.forall_mem_cons] at hblank
      obtain ⟨hname, hvenue, hdate, htime, -⟩ := hblank
      have hdate' : CleanField evt.eventDate := ⟨hdate, hclean _ List.mem_cons_self⟩
      apply not_infix_prompt
      refine Intact.cut (Harmless.intact ?_) (List.take_prefix _ _)
      simp only [List.append_assoc]
      refine .append (by decide) (.append (by decide) ?_)
      refine harmless_quiet (no_angle_decimal _) (.append (by decide) ?_)
      refine .append (by decide) (harmless_quoted hname (by decide) ?_)
      refine .append (by decide) (harmless_quoted hvenue (by decide) ?_)
      refine harmless_field (by decide) hdate' (.append (by decide) ?_)
      refine harmless_quoted htime (by decide) (.append (by decide) ?_)
      refine harmless_quiet (no_angle_decimal _) (.append (by decide) ?_)
      refine harmless_quiet (no_angle_decimal _) (.append (by decide) ?_)
      refine harmless_quiet (no_angle_decimal _) (.append (by decide) ?_)
      refine .append (by decide) (harmless_quiet (hfixed _ _) (.append (by decide) ?_))
      refine .append (by decide) (.append ?_ (by decide))
      split <;> decide

/-- One line of `VIEW_SEATS`. -/
theorem seatLine_harmless (r : Nat × SeatRecord) : Harmless prompt (seatLine r) := by
  have hlabel : Harmless prompt (text " " ++ [r.2.rowLabel]) :=
    Neutral.symbol (by decide) (by decide) _
  simp only [seatLine, List.append_assoc]
  refine .append (by decide) (harmless_quiet (no_angle_padRight (no_angle_decimal _)) ?_)
  rw [← List.append_assoc]
  refine hlabel.append (harmless_quiet (no_angle_padRight (no_angle_decimal _)) ?_)
  refine .append (by decide) (.append ?_ (by decide))
  split <;> decide

theorem handleViewSeats_clean : ¬ prompt <:+: handleViewSeats env s cmd := by
  simp only [handleViewSeats]
  split
  · exact formatResponse_clean (Harmless.intact (by decide))
  · split
    · exact formatResponse_clean (Harmless.intact (by decide))
    · split
      · exact formatResponse_clean (Harmless.intact (by decide))
      · apply rows_clean (by omega)
        · simp only [List.append_assoc]
          refine .append (by decide) (harmless_quiet (no_angle_decimal _) ?_)
          exact .append (by decide) (harmless_quiet (no_angle_decimal _) (by decide))
        · simp only [List.forall_mem_map]
          exact fun r _ => seatLine_harmless r

/-- One line of `MY_BOOKINGS`. -/
theorem bookingLine_harmless (hfixed : ∀ n x, 62 ∉ libc.fixed n x) (r : Nat × BookingRecord) :
    Harmless prompt (bookingLine libc r) := by
  simp only [bookingLine, List.append_assoc]
  refine .append (by decide) (harmless_quiet (no_angle_padRight (no_angle_decimal _)) ?_)
  refine .append (by decide) (harmless_quiet (no_angle_padRight (no_angle_decimal _)) ?_)
  refine .append (by decide) (harmless_quiet (no_angle_padRight (no_angle_decimal _)) ?_)
  exact .append (by decide) (harmless_quiet (hfixed _ _) (by decide))

theorem handleMyBookings_clean (hfixed : ∀ n x, 62 ∉ libc.fixed n x) :
    ¬ prompt <:+: handleMyBookings libc env s slot := by
  simp only [handleMyBookings]
  split
  · exact formatResponse_clean (Harmless.intact (by decide))
  · apply rows_clean (by omega)
    · simp only [List.append_assoc]
      exact .append (by decide) (harmless_quiet (no_angle_decimal _) (by decide +kernel))
    · simp only [List.forall_mem_map]
      exact fun r _ => bookingLine_harmless hfixed r

/-- A report, cut at the end of its buffer. -/
theorem reportsFormatRevenue_intact (hfixed : ∀ n x, 62 ∉ libc.fixed n x) {rev : EventRevenue}
    (hname : CleanField rev.eventName) (size : Nat) :
    Intact prompt (reportsFormatRevenue libc rev size) := by
  refine Intact.cut (Harmless.intact ?_) (List.take_prefix _ _)
  simp only [List.append_assoc]
  refine harmless_field (by decide) hname (.append (by decide) ?_)
  refine harmless_quiet (no_angle_decimal _) (.append (by decide) ?_)
  refine .append (by decide) (harmless_quiet (no_angle_decimal _) ?_)
  refine .append (by decide) (harmless_quiet (no_angle_decimal _) ?_)
  refine .append (by decide) (.append (by decide) ?_)
  refine harmless_quiet (hfixed _ _) (.append (by decide) (.append (by decide) ?_))
  exact harmless_quiet (hfixed _ _) (by decide)

/-- The name in a report is that of the event, cut to its field. -/
theorem reportsEventRevenue_no_blank (hs : TextInv s) {eventId : Nat} {find scan : TableFault}
    {memory : Bool} {rev : EventRevenue}
    (h : reportsEventRevenue s.events s.seats eventId find scan memory = .ok rev) : 32 ∉ rev.eventName := by
  unfold reportsEventRevenue at h
  split at h
  · cases h
  · rename_i evt hfind
    split at h
    · cases h
    · cases h
      exact not_mem_strlcpy (hs.events _ evt (findRecord_ok hfind) _ List.mem_cons_self)

theorem reportsOrganizerRevenue_no_blank (hs : TextInv s) {organizerId max : Nat}
    {fault : Nat → TableFault} {memory : Nat → Bool} {rev : EventRevenue}
    (h : rev ∈ reportsOrganizerRevenue s.events s.seats organizerId max fault memory) :
    32 ∉ rev.eventName := by
  obtain ⟨r, -, hr⟩ := List.mem_filterMap.mp (List.mem_of_mem_take h)
  cases hrev : reportsEventRevenue s.events s.seats r.1.1 (fault (2 * r.2 + 1))
      (fault (2 * r.2 + 2)) (memory r.2) with
  | error rc =>
    rw [hrev] at hr
    cases hr
  | ok rev' =>
    rw [hrev] at hr
    cases hr
    exact reportsEventRevenue_no_blank hs hrev

theorem handleRevenue_clean (hs : TextInv s) (hfixed : ∀ n x, 62 ∉ libc.fixed n x)
    (hcmd : cmd.type = .revenue)
    (hclean : ∀ f ∈ fieldsBeforeBlank env s slot cmd, ¬ text "etp>" <:+ f) :
    ¬ prompt <:+: handleRevenue libc env s slot cmd := by
  simp only [fieldsBeforeBlank, hcmd] at hclean
  simp only [handleRevenue]
  split
  · rename_i hargc
    rw [if_pos hargc] at hclean
    split
    · rename_i rev hrev
      rw [hrev] at hclean
      have hname : CleanField rev.eventName :=
        ⟨reportsEventRevenue_no_blank hs hrev, hclean _ List.mem_cons_self⟩
      have hnewline : Harmless prompt (text "\n") := by decide
      exact formatResponse_clean (hnewline.append_intact (reportsFormatRevenue_intact hfixed hname 512))
    · exact formatResponse_clean (Harmless.intact (by decide))
  · rename_i hargc
    rw [if_neg hargc, List.forall_mem_map] at hclean
    split
    · exact formatResponse_clean (Harmless.intact (by decide))
    · apply rows_clean (by omega) (by decide)
      simp only [List.forall_mem_map]
      intro rev hrev
      have hname : CleanField rev.eventName :=
        ⟨reportsOrganizerRevenue_no_blank hs hrev, hclean rev hrev⟩
      have hnewline : Sealed prompt (text "\n") := by decide
      exact ((reportsFormatRevenue_intact hfixed hname 512).neutral hnewline).harmless
        (by decide)

/-- One line of `LIST_USERS`. -/
theorem userLine_harmless {r : Nat × UserRecord} (hname : CleanField r.2.username) :
    Harmless prompt (userLine r) := by
  have hrole : 62 ∉ roleName r.2.role := by
    cases r.2.role <;> decide
  simp only [userLine, List.append_assoc]
  refine .append (by decide) (harmless_quiet (no_angle_padRight (no_angle_decimal _)) ?_)
  refine harmless_padded _ (by decide) hname (.append (by decide) ?_)
  exact harmless_quiet (no_angle_padRight hrole) (by decide)

theorem handleListUsers_clean (hs : TextInv s) (hcmd : cmd.type = .listUsers)
    (hclean : ∀ f ∈ fieldsBeforeBlank env s slot cmd, ¬ text "etp>" <:+ f) :
    ¬ prompt <:+: handleListUsers env s := by
  simp only [fieldsBeforeBlank, hcmd, List.forall_mem_map] at hclean
  simp only [handleListUsers]
  split
  · exact formatResponse_clean (Harmless.intact (by decide))
  · apply rows_clean (by omega)
    · simp only [List.append_assoc]
      exact .append (by decide) (harmless_quiet (no_angle_decimal _) (by decide +kernel))
    · simp only [List.forall_mem_map]
      exact fun r hr => userLine_harmless ⟨hs.users r.1 r.2 (mem_scanRecords hr).1, hclean r hr⟩

theorem format_clean (stats : ServerStats) (now : Int) (size : Nat) :
    ¬ prompt <:+: stats.format now size := by
  apply not_infix_prompt
  refine Intact.cut (Harmless.intact ?_) (List.take_prefix _ _)
  simp only [List.append_assoc]
  refine .append (by decide +kernel) (.append (by decide) (.append (by decide +kernel) ?_))
  refine .append (by decide) (harmless_quiet (no_angle_twoDigits _) ?_)
  refine .append (by decide) (harmless_quiet (no_angle_twoDigits _) ?_)
  refine .append (by decide) (harmless_quiet (no_angle_twoDigits _) ?_)
  refine .append (by decide) ?_
  -- six lines of two numbers each
  iterate 6
    refine .append (by decide) (harmless_quiet (no_angle_decimal _) ?_)
    refine .append (by decide) (harmless_quiet (no_angle_decimal _) ?_)
    refine .append (by decide) ?_
  decide +kernel

theorem handleHelp_clean (role : UserRole) : ¬ prompt <:+: handleHelp role := by
  have hscan : (scan prompt 0 (handleHelp role)).isSome = true := by
    cases role <;> decide +kernel
  obtain ⟨j, hj⟩ := Option.isSome_iff_exists.mp hscan
  exact not_infix_of_scan (by decide) (by decide) hj

/-- **Responses.**  Unless a text printed before a blank ends in `etp>`, the response does not
contain the prompt. -/
theorem handleCommand_clean (hs : TextInv s) (hargs : ∀ i, 32 ∉ cmd.arg i)
    (hfixed : ∀ n x, 62 ∉ libc.fixed n x)
    (hclean : ∀ f ∈ fieldsBeforeBlank env s slot cmd, ¬ text "etp>" <:+ f)
    (h : handleCommand libc env s slot cmd = some (s', resp)) : ¬ prompt <:+: resp := by
  unfold handleCommand at h
  split at h
  · exact handleRegister_clean hargs h
  · rename_i hcmd
    exact handleLogin_clean hs hcmd h
  · cases h
    split <;> exact formatResponse_clean (Harmless.intact (by decide))
  · exact handleCreateEvent_clean hargs h
  · exact handleDeleteEvent_clean h
  · rename_i hcmd
    cases h
    exact handleListEvents_clean hs hfixed hcmd hclean
  · rename_i hcmd
    cases h
    exact handleViewEvent_clean hs hfixed hcmd hclean
  · cases h
    exact handleViewSeats_clean
  · exact handleBook_clean h
  · exact handleCancel_clean h
  · cases h
    exact handleMyBookings_clean hfixed
  · rename_i hcmd
    cases h
    exact handleRevenue_clean hs hfixed hcmd hclean
  · rename_i hcmd
    cases h
    exact handleListUsers_clean hs hcmd hclean
  · cases h
    exact format_clean _ _ _
  · cases h
    exact handleHelp_clean _
  all_goals
    cases h
    exact formatResponse_clean (Harmless.intact (by decide))

/-! ## One pass of the command loop -/

/-- The line ends the connection. -/
def LineResult.quits : LineResult → Bool
  | .closed => true
  | .oversized => false
  | .line buf => (parseCommand (stripEol buf)).any fun cmd => cmd.type == .quit

/-- The stored texts that the answer to a line prints before a blank. -/
def LineResult.fields (line : LineResult) (env : CmdEnv) (s : Server) (slot : Fin MAX_CONNECTIONS) :
    List CStr :=
  match line with
  | .line buf =>
    match parseCommand (stripEol buf) with
    | none => []
    | some cmd =>
      if rbacCheck (s.auth.sessions slot).role cmd.type then fieldsBeforeBlank env s slot cmd else []
  | _ => []

theorem Reply.body_of_sent {r : Reply} {body : CStr} (h : r.sent = body ++ prompt) :
    r.body = body := by
  rw [Reply.body, h, List.length_append, Nat.add_sub_cancel, List.take_left]

theorem denied_clean (role : UserRole) (type : CommandType) :
    ¬ prompt <:+: strlcpy 256 (text "DENIED " ++ rbacDenialReason role type ++ text "\n") := by
  have hscan : (scan prompt 0
      (strlcpy 256 (text "DENIED " ++ rbacDenialReason role type ++ text "\n"))).isSome = true := by
    cases role <;> cases type <;> decide
  obtain ⟨j, hj⟩ := Option.isSome_iff_exists.mp hscan
  exact not_infix_of_scan (by decide) (by decide) hj

/-- **One line, one response**: a body without the prompt, and the prompt. -/
theorem executeLine_response {line : LineResult} {r : Reply} (hs : TextInv s)
    (hfixed : ∀ n x, 62 ∉ libc.fixed n x) (hquit : line.quits = false)
    (hclean : ∀ f ∈ line.fields env s slot, ¬ text "etp>" <:+ f)
    (h : executeLine libc env s slot line = some r) :
    r.sent = r.body ++ prompt ∧ ¬ prompt <:+: r.body := by
  have hpack : ∀ body, r.sent = body ++ prompt → ¬ prompt <:+: body →
      r.sent = r.body ++ prompt ∧ ¬ prompt <:+: r.body := by
    intro body hsent hbody
    rw [Reply.body_of_sent hsent]
    exact ⟨hsent, hbody⟩
  cases line with
  | closed => cases hquit
  | oversized =>
    cases h
    have hsent : text "ERROR Invalid or oversized command\netp> " =
        text "ERROR Invalid or oversized command\n" ++ prompt := by decide
    exact hpack _ hsent (not_infix_prompt (Harmless.intact (by decide)))
  | line buf =>
    simp only [executeLine] at h
    split at h
    · cases h
      exact hpack [] rfl (not_infix_prompt Harmless.nil.intact)
    · split at h
      · cases h
        exact hpack _ rfl (not_infix_prompt (Harmless.intact (by decide)))
      · rename_i cmd hparse
        simp only [LineResult.quits, hparse, Option.any_some, beq_eq_false_iff_ne] at hquit
        simp only [LineResult.fields, hparse] at hclean
        simp only [executeCommand, if_neg hquit] at h
        split at h
        · cases h
          exact hpack _ rfl (denied_clean _ _)
        · rename_i hallowed
          rw [Bool.not_eq_true, Bool.not_eq_false'] at hallowed
          rw [if_pos hallowed] at hclean
          obtain ⟨⟨s₁, resp₁⟩, hcmd, rfl⟩ := Option.map_eq_some_iff.mp h
          refine hpack _ rfl ?_
          have hinv : TextInv { s with stats := s.stats.incRequests } :=
            ⟨hs.users, hs.sessions, hs.events⟩
          exact handleCommand_clean hinv (parseCommand_no_blank hparse) hfixed hclean hcmd

end Responses

/-! ## Sending -/

/-- The `write`s take `n` bytes, one after the other, before one fails or takes nothing. -/
def takesAll : List WriteResult → Nat → Bool
  | _, 0 => true
  | [], _ + 1 => false
  | .interrupted :: rest, n + 1 => takesAll rest (n + 1)
  | .failed :: _, _ + 1 => false
  | .took k :: rest, n + 1 => k != 0 && takesAll rest (n + 1 - k)

theorem sendLoop_of_takesAll : ∀ (writes : List WriteResult) (sent data : CStr),
    takesAll writes data.length = true → sendLoop writes sent data = some (((sent ++ data).length : Int), sent ++ data)
  | _, sent, [], _ => by
    rw [sendLoop, List.append_nil]
  | .interrupted :: rest, sent, b :: data, h => by
    rw [sendLoop]
    exact sendLoop_of_takesAll rest sent (b :: data) h
  | .took k :: rest, sent, b :: data, h => by
    -- the bytes left after this `write` go the same way
    rw [List.length_cons, takesAll, Bool.and_eq_true, bne_iff_ne] at h
    have hrest : takesAll rest ((b :: data).drop k).length = true := by
      rw [List.length_drop, List.length_cons]
      exact h.2
    rw [sendLoop, if_neg h.1, sendLoop_of_takesAll rest _ _ hrest, List.append_assoc, List.take_append_drop]

/-- **`send_all`** of a buffer that the `write`s take. -/
theorem sendAll_of_takesAll {writes : List WriteResult} {data : CStr} (h : takesAll writes data.length = true) :
    sendAll writes data = some ((data.length : Int), data) :=
  sendLoop_of_takesAll writes [] data h

/-- Every `send_all` of these buffers brings all its bytes to the socket. -/
def SendsAll (net : Nat → List WriteResult) (buffers : List CStr) : Prop :=
  ∀ i data, buffers[i]? = some data → takesAll (net i) data.length = true

theorem sendBuffers_whole : ∀ (buffers : List CStr) {net : Nat → List WriteResult}, SendsAll net buffers →
    sendBuffers buffers net = some buffers.flatten
  | [], _, _ => rfl
  | data :: rest, net, h => by
    have hrest : SendsAll (fun i => net (i + 1)) rest := fun i => h (i + 1)
    rw [sendBuffers, sendAll_of_takesAll (h 0 data rfl), Option.bind_some, sendBuffers_whole rest hrest,
      Option.map_some, List.flatten_cons]

/-- The buffers are the reply. -/
theorem Reply.flatten_buffers {line : LineResult} {r : Reply} (h : r.sent = r.body ++ prompt) :
    (r.buffers line).flatten = r.sent := by
  unfold Reply.buffers
  split
  · exact List.append_nil _
  · rw [h]
    exact congrArg _ (List.append_nil _)

/-! ## A whole connection -/

/-- The line that a step receives on connection `fd`. -/
def ClientStep.lineOn (fd : Int) (t : ClientStep) : Option LineResult :=
  match t.act with
  | .command fd' line _ => if fd' = fd then some line else none
  | _ => none

/-- The line and its reply. -/
def ClientStep.exchange (libc : FloatLibc) (fd : Int) (t : ClientStep) : Option (LineResult × Reply) :=
  match t.act with
  | .command fd' line env =>
    if fd' = fd then
      (t.before.conns fd).bind fun slot =>
        (executeLine libc env t.before.server slot line).map fun r => (line, r)
    else none
  | _ => none

/-- The stored texts that a step prints before a blank on connection `fd`. -/
def ClientStep.fields (fd : Int) (t : ClientStep) : List CStr :=
  match t.act with
  | .command fd' line env =>
    if fd' = fd then
      match t.before.conns fd with
      | some slot => line.fields env t.before.server slot
      | none => []
    else []
  | _ => []

/-- The lines received on a connection, in order; the latest step comes first in a history. -/
def linesOn (fd : Int) (tr : List ClientStep) : List LineResult :=
  tr.reverse.filterMap (ClientStep.lineOn fd)

/-- The lines of a connection with their replies. -/
def exchanges (libc : FloatLibc) (fd : Int) (tr : List ClientStep) : List (LineResult × Reply) :=
  tr.reverse.filterMap (ClientStep.exchange libc fd)

/-- The buffers that the server sends on a connection. -/
def buffersSent (libc : FloatLibc) (fd : Int) (tr : List ClientStep) : List CStr :=
  (exchanges libc fd tr).flatMap fun e => e.2.buffers e.1

/-- What the socket of a connection takes, with the `write`s of each `send_all`. -/
def bytesSent (libc : FloatLibc) (net : Nat → List WriteResult) (fd : Int) (tr : List ClientStep) : Option CStr :=
  sendBuffers (buffersSent libc fd tr) net

section Runs

variable {libc : FloatLibc} {now : Int} {fd : Int} {tr : List ClientStep} {s : ClientSys}

/-- Every step of a run begins without blanks in the stored texts. -/
theorem textInv_of_history (h : History (ClientSys.step libc) (ClientSys.init now) tr s) :
    TextInv s.server ∧ ∀ t ∈ tr, TextInv t.before.server := by
  induction h with
  | nil => exact ⟨textInv_init now, fun t ht => by cases ht⟩
  | cons a _ hs ih =>
    refine ⟨ih.1.step hs, fun t ht => ?_⟩
    rcases List.mem_cons.mp ht with rfl | ht
    · exact ih.1
    · exact ih.2 t ht

/-- A step that took place answers the line it received. -/
theorem ClientStep.exchange_line {t : ClientStep} (h : t.before.step libc t.act = some t.after) :
    t.lineOn fd = (t.exchange libc fd).map Prod.fst := by
  cases ha : t.act with
  | command fd' line env =>
    simp only [ClientStep.lineOn, ClientStep.exchange, ha]
    split
    · rename_i hfd
      subst hfd
      rw [ha] at h
      simp only [ClientSys.step] at h
      split at h
      · cases h
      · rename_i slot hslot
        obtain ⟨r, hr, -⟩ := Option.map_eq_some_iff.mp h
        rw [hslot, Option.bind_some, hr, Option.map_some, Option.map_some]
    · rfl
  | connect fd' => simp only [ClientStep.lineOn, ClientStep.exchange, ha, Option.map_none]
  | disconnect fd' => simp only [ClientStep.lineOn, ClientStep.exchange, ha, Option.map_none]

/-- The reply of one step of a clean connection. -/
theorem ClientStep.exchange_response {t : ClientStep} (hinv : TextInv t.before.server)
    (hfixed : ∀ n x, 62 ∉ libc.fixed n x)
    (hquit : ∀ line, t.lineOn fd = some line → line.quits = false)
    (hclean : ∀ f ∈ t.fields fd, ¬ text "etp>" <:+ f) {e : LineResult × Reply}
    (h : t.exchange libc fd = some e) : e.2.sent = e.2.body ++ prompt ∧ ¬ prompt <:+: e.2.body := by
  cases ha : t.act with
  | command fd' line env =>
    simp only [ClientStep.exchange, ClientStep.lineOn, ClientStep.fields, ha] at h hquit hclean
    split at h
    · rename_i hfd
      obtain ⟨slot, hslot, hrest⟩ := Option.bind_eq_some_iff.mp h
      obtain ⟨r, hr, rfl⟩ := Option.map_eq_some_iff.mp hrest
      simp only [if_pos hfd, hslot] at hquit hclean
      exact executeLine_response hinv hfixed (hquit line rfl) hclean hr
    · cases h
  | connect fd' =>
    simp only [ClientStep.exchange, ha] at h
    cases h
  | disconnect fd' =>
    simp only [ClientStep.exchange, ha] at h
    cases h

/-- **Responses can be split apart again.**  Take any run of the server and, in its steps from some
point on, the lines of one connection, none of which ends it.  As long as no stored text that ends
in `etp>` is printed before a blank, and every `send_all` brings all its bytes to the socket, the bytes
sent on the connection, cut at the prompt, are the bodies of the responses, one for each line and in their
order. -/
theorem responses_split (libc : FloatLibc) (hfixed : ∀ n x, 62 ∉ libc.fixed n x) (now fd : Int)
    {later earlier : List ClientStep} {s : ClientSys}
    (h : History (ClientSys.step libc) (ClientSys.init now) (later ++ earlier) s)
    (hquit : ∀ line ∈ linesOn fd later, line.quits = false)
    (hclean : ∀ t ∈ later, ∀ f ∈ t.fields fd, ¬ text "etp>" <:+ f)
    {net : Nat → List WriteResult} (hnet : SendsAll net (buffersSent libc fd later)) :
    (bytesSent libc net fd later).map (splitDelim prompt 0 []) =
        some ((exchanges libc fd later).map fun e => e.2.body, []) ∧
      linesOn fd later = (exchanges libc fd later).map Prod.fst ∧
      ∀ e ∈ exchanges libc fd later, e.2.sent = e.2.body ++ prompt ∧ ¬ prompt <:+: e.2.body := by
  have hreply : ∀ e ∈ exchanges libc fd later,
      e.2.sent = e.2.body ++ prompt ∧ ¬ prompt <:+: e.2.body := by
    intro e he
    obtain ⟨t, ht, hex⟩ := List.mem_filterMap.mp he
    have hmem : t ∈ later := List.mem_reverse.mp ht
    refine t.exchange_response ((textInv_of_history h).2 t (List.mem_append_left _ hmem)) hfixed ?_
      (hclean t hmem) hex
    exact fun line hline => hquit line (List.mem_filterMap.mpr ⟨t, ht, hline⟩)
  refine ⟨?_, ?_, hreply⟩
  · have hbytes : (buffersSent libc fd later).flatten =
        ((exchanges libc fd later).map fun e => e.2.body).flatMap fun body => body ++ prompt := by
      rw [buffersSent, ← List.flatMap_id, List.flatMap_assoc, List.flatMap_map]
      refine List.flatMap_congr fun e he => ?_
      rw [List.flatMap_id]
      exact (Reply.flatten_buffers (hreply e he).1).trans (hreply e he).1
    rw [bytesSent, sendBuffers_whole _ hnet, hbytes, Option.map_some]
    congr 1
    apply splitDelim_bodies (by decide) (by decide)
    simp only [List.forall_mem_map]
    exact fun e he => (hreply e he).2
  · rw [linesOn, exchanges, List.map_filterMap]
    refine List.filterMap_congr fun t ht => ?_
    exact t.exchange_line (h.step_of_mem (List.mem_append_left _ (List.mem_reverse.mp ht)))

end Runs

/-- A socket that takes three bytes first, and is interrupted before it takes the rest. -/
def slowNet (_ : Nat) : List WriteResult := [.took 3, .interrupted, .took MAX_RESPONSE_SIZE]

/-- The admin lists the users after a customer has registered. -/
theorem responses_split_users : ∃ tr s,
    History (ClientSys.step noFloats) (ClientSys.init 0) (tr ++ []) s ∧ (linesOn 4 tr).length = 3 ∧
      (bytesSent noFloats slowNet 4 tr).map (splitDelim prompt 0 []) =
        some ((exchanges noFloats 4 tr).map fun e => e.2.body, []) := by
  have hrun : (runHistory (ClientSys.step noFloats) [] (ClientSys.init 0)
      [.connect 4, typed "REGISTER eve secret", typed "LOGIN admin admin123", typed "LIST_USERS"]).any
        (fun r => (linesOn 4 r.1).length == 3 && (linesOn 4 r.1).all (fun line => !line.quits) &&
          r.1.all (fun t => (ClientStep.fields 4 t).all fun f => !(text "etp>").isSuffixOf f) &&
          (buffersSent noFloats 4 r.1).all fun data => takesAll (slowNet 0) data.length) = true := by
    decide +kernel
  obtain ⟨⟨tr, s⟩, hr, hcheck⟩ := (Option.any_eq_true _ _).mp hrun
  simp only [Bool.and_eq_true, List.all_eq_true, beq_iff_eq, Bool.not_eq_true'] at hcheck
  obtain ⟨⟨⟨hlen, hquit⟩, hclean⟩, hnet⟩ := hcheck
  have hist : History (ClientSys.step noFloats) (ClientSys.init 0) (tr ++ []) s := by
    rw [List.append_nil]
    exact History.of_runHistory .nil hr
  refine ⟨tr, s, hist, hlen, (responses_split noFloats ?_ 0 4 hist hquit ?_ ?_).1⟩
  · exact fun n x => List.not_mem_nil
  · intro t ht f hf hend
    rw [← List.isSuffixOf_iff_suffix, hclean t ht f hf] at hend
    cases hend
  · exact fun i data hi => hnet data (List.mem_of_getElem? hi)

/-- A user named `etp>`: three lines are received, and the bytes sent fall into four segments.  A client that does
not read for a second: one line is received, and the socket takes half of the body and no prompt. -/
theorem responses_not_split :
    (∃ tr s, History (ClientSys.step noFloats) (ClientSys.init 0) tr s ∧
      (∀ line ∈ linesOn 4 tr, line.quits = false) ∧ (linesOn 4 tr).length = 3 ∧
      (bytesSent noFloats slowNet 4 tr).map (fun sent => (splitDelim prompt 0 [] sent).1.length) = some 4) ∧
    ∃ tr s, History (ClientSys.step noFloats) (ClientSys.init 0) tr s ∧
      (∀ line ∈ linesOn 4 tr, line.quits = false) ∧ (linesOn 4 tr).length = 1 ∧
      (bytesSent noFloats (fun i => if i = 0 then [.took 7, .failed] else [.failed]) 4 tr).map
        (fun sent => (splitDelim prompt 0 [] sent).1.length) = some 0 := by
  constructor
  · have hrun : (runHistory (ClientSys.step noFloats) [] (ClientSys.init 0)
        [.connect 4, typed "REGISTER etp> secret", typed "LOGIN admin admin123",
          typed "LIST_USERS"]).any
          (fun r => (linesOn 4 r.1).length == 3 && (linesOn 4 r.1).all (fun line => !line.quits) &&
            (bytesSent noFloats slowNet 4 r.1).map (fun sent => (splitDelim prompt 0 [] sent).1.length) ==
              some 4) = true := by
      decide +kernel
    obtain ⟨⟨tr, s⟩, hr, hcheck⟩ := (Option.any_eq_true _ _).mp hrun
    simp only [Bool.and_eq_true, List.all_eq_true, beq_iff_eq, Bool.not_eq_true'] at hcheck
    obtain ⟨⟨hlen, hquit⟩, hcut⟩ := hcheck
    exact ⟨tr, s, History.of_runHistory .nil hr, hquit, hlen, hcut⟩
  · have hrun : (runHistory (ClientSys.step noFloats) [] (ClientSys.init 0)
        [.connect 4, typed "LOGIN eve secret"]).any
          (fun r => (linesOn 4 r.1).length == 1 && (linesOn 4 r.1).all (fun line => !line.quits) &&
            (bytesSent noFloats (fun i => if i = 0 then [.took 7, .failed] else [.failed]) 4 r.1).map
              (fun sent => (splitDelim prompt 0 [] sent).1.length) == some 0) = true := by
      decide +kernel
    obtain ⟨⟨tr, s⟩, hr, hcheck⟩ := (Option.any_eq_true _ _).mp hrun
    simp only [Bool.and_eq_true, List.all_eq_true, beq_iff_eq, Bool.not_eq_true'] at hcheck
    obtain ⟨⟨hlen, hquit⟩, hcut⟩ := hcheck
    exact ⟨tr, s, History.of_runHistory .nil hr, hquit, hlen, hcut⟩

end Ticketing
