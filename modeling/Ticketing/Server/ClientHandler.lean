import Ticketing.Server.CommandRouter

/-!
# Client connections (`server/main.c`)

`read_command_line`, `send_all` and the command loop of `client_handler`, and the system of all connections.
Commands run one at a time; connects, command lines and disconnects of different clients come in any
order.

* `readCommandLine` — one line from the results of successive `read` calls.
* `executeLine` — what the command loop does with one result of `read_command_line`.
* `sendAll` — what the socket takes of a buffer, from the results of successive `write` calls.
* `ClientSys`, `ClientSys.step` — the server with its open connections.
-/

set_option autoImplicit false

namespace Ticketing

open CText

/-! ## Reading a line -/

/-- The result of one `read` of one byte. -/
inductive ReadResult where
  | byte (b : UInt8)
  /-- `EINTR`, `EAGAIN` or `EWOULDBLOCK`. -/
  | retry
  /-- End of file, an error, or the server shutting down. -/
  | closed
  deriving DecidableEq, Repr

/-- The result of `read_command_line`: the line, -2, or -1. -/
inductive LineResult where
  | line (buf : CStr)
  | oversized
  | closed
  deriving DecidableEq, Repr

/-- The loop of `read_command_line` with the bytes stored so far; `none` while the line is not
complete. -/
def readLoop (capacity : Nat) : List ReadResult → CStr → Bool → Option (LineResult × List ReadResult)
  | [], _, _ => none
  | .retry :: rest, buf, overflow => readLoop capacity rest buf overflow
  | .closed :: rest, _, _ => some (.closed, rest)
  | .byte ch :: rest, buf, overflow =>
    if ch = 10 then some (if overflow then .oversized else .line buf, rest)
    else if buf.length + 1 < capacity then
      readLoop capacity rest (buf ++ [ch]) (overflow || ch == 0)
    else readLoop capacity rest buf true

/-- `read_command_line`. -/
def readCommandLine (capacity : Nat) (input : List ReadResult) :
    Option (LineResult × List ReadResult) :=
  readLoop capacity input [] false

/-! ## The command loop -/

/-- The prompt. -/
def prompt : CStr := text "etp> "

/-- What one pass of the command loop does: the server, the bytes handed to `send_all`, and whether the loop
ends. -/
structure Reply where
  server : Server
  sent : CStr
  quit : Bool

/-- One parsed command: `QUIT`, the permission check, the router. -/
def executeCommand (libc : FloatLibc) (env : CmdEnv) (s : Server) (slot : Fin MAX_CONNECTIONS)
    (cmd : ParsedCommand) : Option Reply :=
  let role := (s.auth.sessions slot).role
  if cmd.type = .quit then some ⟨s, text "OK Goodbye!\n", true⟩
  else if !rbacCheck role cmd.type then
    some ⟨{ s with stats := s.stats.incFailedRequests },
      strlcpy 256 (text "DENIED " ++ rbacDenialReason role cmd.type ++ text "\n") ++ prompt, false⟩
  else (handleCommand libc env s slot cmd).map fun r => ⟨r.1, r.2 ++ prompt, false⟩

/-- One pass of the command loop of `client_handler`. -/
def executeLine (libc : FloatLibc) (env : CmdEnv) (s : Server) (slot : Fin MAX_CONNECTIONS) :
    LineResult → Option Reply
  | .oversized => some ⟨s, text "ERROR Invalid or oversized command\netp> ", false⟩
  | .closed => some ⟨s, [], true⟩
  | .line buf =>
    let buf := stripEol buf
    if buf = [] then some ⟨s, prompt, false⟩
    else
      let s := { s with stats := s.stats.incRequests }
      match parseCommand buf with
      | none => some ⟨s, text "ERROR Invalid command. Type HELP for usage.\n" ++ prompt, false⟩
      | some cmd => executeCommand libc env s slot cmd

/-! ## Sending -/

/-- The result of one `write` to the socket: how many bytes it took, `EINTR`, or an error, such as the one second
of `SO_SNDTIMEO` running out. -/
inductive WriteResult where
  | took (n : Nat)
  | interrupted
  | failed
  deriving DecidableEq, Repr

/-- The loop of `send_all`, with the bytes that the socket has taken and those that are left: what it returns, and
all that the socket has taken; `none` while a `write` has not returned. -/
def sendLoop : List WriteResult → CStr → CStr → Option (Int × CStr)
  | _, sent, [] => some (sent.length, sent)
  | [], _, _ :: _ => none
  | .interrupted :: rest, sent, b :: data => sendLoop rest sent (b :: data)
  | .failed :: _, sent, _ :: _ => some (-1, sent)
  | .took n :: rest, sent, b :: data =>
    if n = 0 then some (-1, sent)
    else sendLoop rest (sent ++ (b :: data).take n) ((b :: data).drop n)

/-- `send_all`. -/
def sendAll (writes : List WriteResult) (data : CStr) : Option (Int × CStr) := sendLoop writes [] data

/-- What is sent before the prompt. -/
def Reply.body (r : Reply) : CStr := r.sent.take (r.sent.length - prompt.length)

/-- The buffers of the reply, each for one call of `send_all`: the body and the prompt, but one text for an
oversized line and for the end of the loop. -/
def Reply.buffers (line : LineResult) (r : Reply) : List CStr :=
  if line = .oversized ∨ r.quit = true then [r.sent] else [r.body, prompt]

/-- What the socket takes of some buffers, with the `write`s of each call; nobody looks at what `send_all`
returns. -/
def sendBuffers : List CStr → (Nat → List WriteResult) → Option CStr
  | [], _ => some []
  | data :: rest, net =>
    (sendAll (net 0) data).bind fun r => (sendBuffers rest fun i => net (i + 1)).map fun more => r.2 ++ more

/-! ## Connections -/

/-- The server and, for each open connection, the session its handler works with. -/
structure ClientSys where
  server : Server
  conns : Int → Option (Fin MAX_CONNECTIONS)

/-- What a client does. -/
inductive ClientAct where
  | connect (fd : Int)
  | command (fd : Int) (line : LineResult) (env : CmdEnv)
  | disconnect (fd : Int)

namespace ClientSys

/-- The end of `client_handler`. -/
def cleanup (s : ClientSys) (fd : Int) : ClientSys where
  server :=
    { s.server with
      auth := authRemoveSession s.server.auth fd, stats := s.server.stats.decConnections }
  conns := Function.update s.conns fd none

/-- One step of one client.  A new connection has a descriptor that is not open. -/
def step (libc : FloatLibc) (s : ClientSys) : ClientAct → Option ClientSys
  | .connect fd =>
    if 0 ≤ fd ∧ s.conns fd = none then
      let stats := s.server.stats.incConnections
      match authCreateSession s.server.auth fd with
      | none => some { s with server := { s.server with stats := stats.decConnections } }
      | some r =>
        some
          { server := { s.server with auth := r.2, stats := stats }
            conns := Function.update s.conns fd (some r.1) }
    else none
  | .command fd line env =>
    match s.conns fd with
    | none => none
    | some slot =>
      (executeLine libc env s.server slot line).map fun r =>
        let s' : ClientSys := { s with server := r.server }
        if r.quit then s'.cleanup fd else s'
  | .disconnect fd => if s.conns fd = none then none else some (s.cleanup fd)

end ClientSys

/-- `server_init` over an empty data directory. -/
def serverInit (now : Int) : Server where
  users := authBootstrapAdmin (OTable.empty 1) now
  events := OTable.empty 1
  seats := OTable.empty 1
  bookings := OTable.empty 1
  bookingSeats := OTable.empty 1
  locks := lockMgrCreate
  tm := txnMgrCreate
  auth := authCreate
  stats := shmStatsCreate now

/-- The server before its first connection. -/
def ClientSys.init (now : Int) : ClientSys := ⟨serverInit now, fun _ => none⟩

end Ticketing
