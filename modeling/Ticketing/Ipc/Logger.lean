import Ticketing.Lib.CText
import Ticketing.Lib.Channel
import Ticketing.Lib.Runs
import Ticketing.Lib.ThreadLists
import Mathlib.Data.List.GetD
import Mathlib.Data.List.TakeWhile

/-!
# The log file (`server/ipc/logger.c`)

Workers write lines into a pipe, and one thread copies what comes out of it to the log file, in pieces that
do not keep to the lines.  A write of at most `PIPE_BUF` bytes goes into the pipe as a whole; it waits until
there is room, and meanwhile keeps the write end open.  `pipe_logger_destroy` closes the descriptor, and the
thread ends when the pipe is empty and nobody can write any more.  `signal` restarts a `read` or `write` that a
signal has interrupted.

* `pipeLoggerMsg` — the bytes that `pipe_logger_write` hands to `write`.
* `pipeLoggerMsg_line` — when these are one line; `pipeLoggerMsg_reads` — what it reads of its buffer.
* `PipeLogger.step` — the threads, step by step.
* `log_file_has_every_line` — the log file after any run.
-/

set_option autoImplicit false

namespace Ticketing

open CText

def LOG_MSG_MAX : Nat := 512

/-- The room in a pipe. -/
def PIPE_SIZE : Nat := 65536

/-! ## One line -/

/-- A call of `pipe_logger_write`: what `strftime` and `vsnprintf` print, and what is in the buffer before. -/
structure LogCallArgs where
  stamp : CStr
  message : CStr
  garbage : Nat → UInt8

/-- `offset + written`. -/
def LogCallArgs.total (c : LogCallArgs) : Nat := c.stamp.length + c.message.length

/-- The buffer after `vsnprintf`, which has room for all but one of the bytes behind the time, and counts
those that it has no room for. -/
def LogCallArgs.printed (c : LogCallArgs) : CStr :=
  c.stamp ++ strlcpy (LOG_MSG_MAX - c.stamp.length - 1) c.message ++ [0]

/-- The byte at `msg[i]`, also behind the end of the buffer. -/
def LogCallArgs.byteAt (c : LogCallArgs) (i : Nat) : UInt8 :=
  if c.total < LOG_MSG_MAX - 1 ∧ i = c.total then 10
  else if c.total < LOG_MSG_MAX - 1 ∧ i = c.total + 1 then 0
  else c.printed.getD i (c.garbage i)

/-- The length that `write` is given. -/
def LogCallArgs.writeSize (c : LogCallArgs) : Nat :=
  if c.total < LOG_MSG_MAX - 1 then c.total + 1 else c.total

/-- The bytes that `pipe_logger_write` writes, if any. -/
def pipeLoggerMsg (c : LogCallArgs) : Option CStr :=
  if 0 < c.message.length then some ((List.range c.writeSize).map c.byteAt) else none

section Lines

variable {c : LogCallArgs}

/-- **A message that fits** is written as one line. -/
theorem pipeLoggerMsg_line (hmessage : 0 < c.message.length) (hfits : c.total < LOG_MSG_MAX - 1) :
    pipeLoggerMsg c = some (c.stamp ++ c.message ++ [10]) := by
  have hroom : c.message.length ≤ LOG_MSG_MAX - c.stamp.length - 1 - 1 := by
    unfold LogCallArgs.total at hfits
    omega
  have hprinted : c.printed = c.stamp ++ c.message ++ [0] := by
    unfold LogCallArgs.printed strlcpy
    rw [List.take_of_length_le hroom]
  have hlen : (c.stamp ++ c.message).length = c.total := List.length_append
  rw [pipeLoggerMsg, if_pos hmessage, LogCallArgs.writeSize, if_pos hfits, List.range_succ, List.map_append,
    List.map_singleton]
  refine congrArg some (congrArg₂ _ (List.ext_getElem (by simp [hlen]) fun i hi hi' => ?_) ?_)
  · -- a byte before the newline
    have hlt : i < c.total := hlen ▸ hi'
    rw [List.getElem_map, List.getElem_range, LogCallArgs.byteAt, if_neg (by omega), if_neg (by omega), hprinted,
      List.getD_append _ _ _ _ hi', List.getD_eq_getElem _ _ hi']
  · rw [LogCallArgs.byteAt, if_pos ⟨hfits, rfl⟩]

/-- **What `write` reads**: it stays in the buffer exactly if the message would have left one byte of it. -/
theorem pipeLoggerMsg_reads : c.writeSize ≤ LOG_MSG_MAX ↔ c.total ≤ LOG_MSG_MAX := by
  unfold LogCallArgs.writeSize LOG_MSG_MAX
  split <;> omega

end Lines

/-! ## The threads -/

/-- Where `logger_writer_fn` is. -/
inductive ReaderPhase where
  /-- Before or in `read`. -/
  | reading
  /-- With the bytes it has read. -/
  | copying (buf : CStr)
  | exited
  deriving DecidableEq, Repr

/-- The bytes in its buffer. -/
def ReaderPhase.inHand : ReaderPhase → CStr
  | .copying buf => buf
  | _ => []

/-- Where a call of `pipe_logger_write` is. -/
inductive LogPhase where
  | entering
  /-- Before `write`. -/
  | writing
  /-- In `write`, waiting for room if need be. -/
  | inWrite
  /-- Returned without having written. -/
  | dropped
  | written
  deriving DecidableEq, Repr

/-- It has printed a message. -/
def LogPhase.hasLine : LogPhase → Bool
  | .writing => true
  | .inWrite => true
  | .written => true
  | _ => false

/-- Where `pipe_logger_destroy` is. -/
inductive LoggerEnd where
  | idle
  /-- After `running = 0`. -/
  | stopped
  /-- After `close(pipe_fds[1])`. -/
  | joining
  | joined
  deriving DecidableEq, Repr

/-- `pipe_logger_t`, its pipe, its file and its threads. -/
structure PipeLogger where
  running : Bool
  pipe : Channel UInt8
  reader : ReaderPhase
  file : CStr
  destroyer : LoggerEnd
  calls : List LogCallArgs
  writes : List LogPhase
  /-- The calls that have written, in order. -/
  order : List Nat

/-- A step of one thread. -/
inductive LoggerAct where
  /-- A new call. -/
  | call (c : LogCallArgs)
  /-- It looks at `running` and prints its message. -/
  | print (k : Nat)
  /-- It calls `write`. -/
  | enter (k : Nat)
  /-- The pipe takes its line. -/
  | write (k : Nat)
  /-- The `read` of the writer thread, which returns `n` bytes. -/
  | read (n : Nat)
  /-- `fprintf` and `fflush`; where they fail, only the first bytes get to the file. -/
  | copy (cut : Option Nat)
  /-- `running = 0`. -/
  | stop
  /-- `close(pipe_fds[1])`. -/
  | close
  /-- `pthread_join`. -/
  | join

namespace PipeLogger

/-- `pipe_logger_create` on a file that holds `old`. -/
def create (old : CStr) : PipeLogger := ⟨true, ⟨[], [], []⟩, .reading, old, .idle, [], [], []⟩

/-- The call `k`. -/
def args (s : PipeLogger) (k : Nat) : LogCallArgs := s.calls.getD k ⟨[], [], fun _ => 0⟩

/-- What it writes. -/
def line (s : PipeLogger) (k : Nat) : CStr := (pipeLoggerMsg (s.args k)).getD []

/-- `close(pipe_fds[1])` is still to come. -/
def accepts (s : PipeLogger) : Bool := s.destroyer = .idle ∨ s.destroyer = .stopped

/-- The write end is open: by its descriptor, or by a call in `write`. -/
def isOpen (s : PipeLogger) : Bool := s.accepts ∨ .inWrite ∈ s.writes

/-- One step. -/
def step (s : PipeLogger) : LoggerAct → Option PipeLogger
  -- the memory is released after the join
  | .call c =>
    if s.destroyer = .joined then none
    else some { s with calls := s.calls ++ [c], writes := s.writes ++ [.entering] }
  | .print k =>
    if s.writes[k]? = some .entering then
      some
        { s with
          writes := s.writes.set k
            (if s.running ∧ (pipeLoggerMsg (s.args k)).isSome then .writing else .dropped) }
    else none
  | .enter k =>
    if s.writes[k]? = some .writing then
      some { s with writes := s.writes.set k (if s.accepts then .inWrite else .dropped) }
    else none
  | .write k =>
    if s.writes[k]? = some .inWrite then
      -- it waits until there is room
      if s.pipe.pending.length + (s.line k).length ≤ PIPE_SIZE then
        some { s with pipe := s.pipe.send (s.line k), writes := s.writes.set k .written, order := s.order ++ [k] }
      else none
    else none
  | .read n =>
    if s.reader = .reading then
      if s.pipe.pending = [] then
        -- the end of the file, once nobody can write
        if s.isOpen then none else some { s with reader := .exited }
      else if 0 < n ∧ n ≤ s.pipe.pending.length ∧ n ≤ LOG_MSG_MAX - 1 then
        some { s with pipe := s.pipe.receive n, reader := .copying (s.pipe.pending.take n) }
      else none
    else none
  | .copy cut =>
    match s.reader with
    -- `%s` stops at a NUL
    | .copying buf =>
      let out := buf.takeWhile (· ≠ 0)
      some { s with file := s.file ++ cut.elim out (out.take ·), reader := .reading }
    | _ => none
  | .stop => if s.destroyer = .idle then some { s with running := false, destroyer := .stopped } else none
  | .close => if s.destroyer = .stopped then some { s with destroyer := .joining } else none
  | .join =>
    if s.destroyer = .joining ∧ s.reader = .exited then some { s with destroyer := .joined } else none

end PipeLogger

/-- The steps of the writer thread. -/
def LoggerAct.isReader : LoggerAct → Bool
  | .read _ => true
  | .copy _ => true
  | _ => false

/-- A call whose line fits into the buffer and has no NUL in it. -/
def LogCallArgs.Fits (c : LogCallArgs) : Prop :=
  c.total < LOG_MSG_MAX - 1 ∧ (∀ b ∈ c.stamp, b ≠ 0) ∧ ∀ b ∈ c.message, b ≠ 0

/-- A short message fits behind any time. -/
theorem LogCallArgs.fits_of_short {stamp message : CStr} {garbage : Nat → UInt8} (hstamp : stamp.length < 32)
    (hne : ∀ b ∈ stamp, b ≠ 0) (hlen : message.length < 480) (hmessage : ∀ b ∈ message, b ≠ 0) :
    LogCallArgs.Fits ⟨stamp, message, garbage⟩ := by
  refine ⟨?_, hne, hmessage⟩
  show stamp.length + message.length < LOG_MSG_MAX - 1
  unfold LOG_MSG_MAX
  omega

/-- The messages of the server. -/
def serverMessages (clientFd : Int) : List CStr :=
  [text "Client fd=" ++ decimalInt clientFd ++ text " disconnected", text "Server initialized successfully",
    text "Server shutting down"]

/-- The messages of the server fit, whatever the descriptor. -/
theorem serverMessages_fit {clientFd : Int} (hfd : clientFd.natAbs ≤ 2 ^ 31) {stamp : CStr}
    (hstamp : stamp.length < 32) (hne : ∀ b ∈ stamp, b ≠ 0) (garbage : Nat → UInt8) :
    ∀ message ∈ serverMessages clientFd, LogCallArgs.Fits ⟨stamp, message, garbage⟩ := by
  intro message hmessage
  simp only [serverMessages, List.mem_cons, List.not_mem_nil, or_false] at hmessage
  rcases hmessage with rfl | rfl | rfl
  · have hdigits : (decimalInt clientFd).length ≤ 11 := length_decimalInt_le (by decide) (by omega)
    have hfront : (text "Client fd=").length = 10 := by decide
    have hback : (text " disconnected").length = 13 := by decide
    refine LogCallArgs.fits_of_short hstamp hne ?_ fun b hb => ?_
    · rw [List.length_append, List.length_append, hfront, hback]
      omega
    · rcases List.mem_append.mp hb with hb | hb
      · rcases List.mem_append.mp hb with hb | hb
        · exact (show ∀ b ∈ text "Client fd=", b ≠ 0 by decide +kernel) b hb
        · exact ne_zero_of_mem_decimalInt hb
      · exact (show ∀ b ∈ text " disconnected", b ≠ 0 by decide +kernel) b hb
  · exact LogCallArgs.fits_of_short hstamp hne (by decide) (by decide +kernel)
  · exact LogCallArgs.fits_of_short hstamp hne (by decide) (by decide +kernel)

/-- Callers only log messages that fit, and the log file takes what is written to it. -/
def LoggerAct.Fits : LoggerAct → Prop
  | .call c => c.Fits
  | .copy cut => cut = none
  | _ => True

/-! ## The invariant -/

/-- The file held `old` when it was opened. -/
structure LoggerInv (old : CStr) (s : PipeLogger) : Prop where
  intact : s.pipe.Intact
  sent : s.pipe.sent = (s.order.map s.line).flatten
  copied : ∃ done, s.file = old ++ done ∧ s.pipe.received = done ++ s.reader.inHand
  fits : ∀ c ∈ s.calls, c.Fits
  threads : s.writes.length = s.calls.length
  printed : ∀ k p, s.writes[k]? = some p → p.hasLine = true → 0 < (s.args k).message.length
  order : Listed .written s.writes s.order
  exited : s.reader = .exited → s.pipe.pending = [] ∧ s.isOpen = false
  joined : s.destroyer = .joined → s.reader = .exited

section Invariant

variable {old : CStr} {s s' : PipeLogger}

theorem PipeLogger.args_mem {k : Nat} (hk : k < s.calls.length) : s.args k ∈ s.calls := by
  unfold PipeLogger.args
  rw [List.getD_eq_getElem _ _ hk]
  exact List.getElem_mem hk

/-- Nobody can write once the descriptor is closed and no call is in `write`. -/
theorem PipeLogger.isOpen_eq_false : s.isOpen = false ↔ s.accepts = false ∧ .inWrite ∉ s.writes := by
  unfold PipeLogger.isOpen
  rw [decide_eq_false_iff_not, not_or, Bool.not_eq_true]

theorem LoggerInv.line_eq (inv : LoggerInv old s) {k : Nat} {p : LogPhase} (hk : s.writes[k]? = some p)
    (hp : p.hasLine = true) : s.line k = (s.args k).stamp ++ (s.args k).message ++ [10] := by
  have hlt : k < s.calls.length := inv.threads ▸ (List.getElem?_eq_some_iff.mp hk).1
  unfold PipeLogger.line
  rw [pipeLoggerMsg_line (inv.printed k p hk hp) (inv.fits _ (PipeLogger.args_mem hlt)).1, Option.getD_some]

/-- No line has a NUL. -/
theorem LoggerInv.ne_zero (inv : LoggerInv old s) {b : UInt8} (hb : b ∈ s.pipe.sent) : b ≠ 0 := by
  rw [inv.sent] at hb
  obtain ⟨l, hl, hb⟩ := List.mem_flatten.mp hb
  obtain ⟨k, hk, rfl⟩ := List.mem_map.mp hl
  obtain ⟨-, hstamp, hmessage⟩ := inv.fits _ (PipeLogger.args_mem (inv.threads ▸ inv.order.lt hk))
  rw [inv.line_eq ((inv.order.mem k).mp hk) rfl, List.mem_append, List.mem_append, List.mem_singleton] at hb
  rcases hb with (hb | hb) | rfl
  · exact hstamp b hb
  · exact hmessage b hb
  · decide

theorem loggerInv_create (old : CStr) : LoggerInv old (PipeLogger.create old) where
  intact := rfl
  sent := rfl
  copied := ⟨[], (List.append_nil old).symm, rfl⟩
  fits c hc := absurd hc List.not_mem_nil
  threads := rfl
  printed k p h := by cases h
  order := listed_nil _
  exited h := by cases h
  joined h := by cases h

/-- A new call. -/
theorem LoggerInv.call (inv : LoggerInv old s) {c : LogCallArgs} (hc : c.Fits) :
    LoggerInv old { s with calls := s.calls ++ [c], writes := s.writes ++ [.entering] } := by
  have hargs : ∀ {k p}, s.writes[k]? = some p →
      PipeLogger.args { s with calls := s.calls ++ [c], writes := s.writes ++ [.entering] } k = s.args k := by
    intro k p hk
    unfold PipeLogger.args
    rw [List.getD_append _ _ _ _ (inv.threads ▸ (List.getElem?_eq_some_iff.mp hk).1)]
  refine ⟨inv.intact, ?_, inv.copied, fun c' hc' => ?_, ?_, fun k p hk hp => ?_, inv.order.concat (by decide),
    fun hexited => ⟨(inv.exited hexited).1, ?_⟩, inv.joined⟩
  · rw [inv.sent]
    refine congrArg _ (List.map_congr_left fun k hk => ?_)
    unfold PipeLogger.line
    rw [hargs ((inv.order.mem k).mp hk)]
  · rcases List.mem_append.mp hc' with hc' | hc'
    · exact inv.fits c' hc'
    · rw [List.mem_singleton] at hc'
      exact hc' ▸ hc
  · rw [List.length_append, List.length_append, inv.threads]
    rfl
  · rcases getElem?_concat_cases hk with hold | ⟨-, rfl⟩
    · rw [hargs hold]
      exact inv.printed k p hold hp
    · cases hp
  · obtain ⟨hclosed, hnone⟩ := PipeLogger.isOpen_eq_false.mp (inv.exited hexited).2
    refine PipeLogger.isOpen_eq_false.mpr ⟨hclosed, fun hmem => ?_⟩
    rcases List.mem_append.mp hmem with hmem | hmem
    · exact hnone hmem
    · cases List.mem_singleton.mp hmem

/-- The calls after one of them has moved on. -/
theorem LoggerInv.printed_set (inv : LoggerInv old s) {k : Nat} {b : LogPhase}
    (hb : b.hasLine = true → 0 < (s.args k).message.length) (j : Nat) (p : LogPhase)
    (hj : (s.writes.set k b)[j]? = some p) (hp : p.hasLine = true) : 0 < (s.args j).message.length := by
  rcases getElem?_set_cases hj with ⟨rfl, rfl⟩ | ⟨-, hj⟩
  · exact hb hp
  · exact inv.printed j p hj hp

/-- A call goes on without having written; it enters `write` only before the write end is closed. -/
theorem LoggerInv.move (inv : LoggerInv old s) {k : Nat} {a b : LogPhase} (hold : s.writes[k]? = some a)
    (ha : a ≠ .written) (hb : b ≠ .written) (hprinted : b.hasLine = true → 0 < (s.args k).message.length)
    (hopen : b = .inWrite → s.accepts = true) : LoggerInv old { s with writes := s.writes.set k b } := by
  refine ⟨inv.intact, inv.sent, inv.copied, inv.fits, (List.length_set ..).trans inv.threads,
    inv.printed_set hprinted, inv.order.move hold ha hb, fun hexited => ⟨(inv.exited hexited).1, ?_⟩, inv.joined⟩
  obtain ⟨hclosed, hnone⟩ := PipeLogger.isOpen_eq_false.mp (inv.exited hexited).2
  refine PipeLogger.isOpen_eq_false.mpr ⟨hclosed, fun hmem => ?_⟩
  rcases List.mem_or_eq_of_mem_set hmem with hmem | heq
  · exact hnone hmem
  · rw [hopen heq.symm] at hclosed
    cases hclosed

/-- The pipe takes a line. -/
theorem LoggerInv.write (inv : LoggerInv old s) {k : Nat} (hold : s.writes[k]? = some .inWrite) :
    LoggerInv old
      { s with pipe := s.pipe.send (s.line k), writes := s.writes.set k .written, order := s.order ++ [k] } := by
  refine ⟨inv.intact.send _, ?_, inv.copied, inv.fits, (List.length_set ..).trans inv.threads,
    inv.printed_set fun _ => inv.printed k .inWrite hold rfl, inv.order.enter hold (by decide), fun hexited => ?_,
    inv.joined⟩
  · show s.pipe.sent ++ s.line k = ((s.order ++ [k]).map s.line).flatten
    rw [inv.sent, List.map_append, List.flatten_append, List.map_singleton, List.flatten_singleton]
  · obtain ⟨-, hnone⟩ := PipeLogger.isOpen_eq_false.mp (inv.exited hexited).2
    exact absurd (List.mem_of_getElem? hold) hnone

/-- A thread that is in its loop has not been joined. -/
theorem LoggerInv.not_joined (inv : LoggerInv old s) (h : s.reader ≠ .exited) {P : Prop}
    (hjoined : s.destroyer = .joined) : P := absurd (inv.joined hjoined) h

/-- The writer thread reads. -/
theorem LoggerInv.read (inv : LoggerInv old s) (hreading : s.reader = .reading) (n : Nat) :
    LoggerInv old { s with pipe := s.pipe.receive n, reader := .copying (s.pipe.pending.take n) } := by
  obtain ⟨done, hfile, hreceived⟩ := inv.copied
  rw [hreading] at hreceived
  refine ⟨inv.intact.receive n, inv.sent, ⟨done, hfile, ?_⟩, inv.fits, inv.threads, inv.printed, inv.order,
    fun h => (nomatch h), inv.not_joined (by rw [hreading]; decide)⟩
  show s.pipe.received ++ s.pipe.pending.take n = done ++ s.pipe.pending.take n
  rw [hreceived, ReaderPhase.inHand, List.append_nil]
  exact fun buf h => (nomatch h)

/-- It copies what it has read: none of it is a NUL. -/
theorem LoggerInv.copy (inv : LoggerInv old s) {buf : CStr} (hcopying : s.reader = .copying buf) :
    LoggerInv old { s with file := s.file ++ buf.takeWhile (· ≠ 0), reader := .reading } := by
  obtain ⟨done, hfile, hreceived⟩ := inv.copied
  rw [hcopying] at hreceived
  have hwhole : buf.takeWhile (· ≠ 0) = buf := by
    refine List.takeWhile_eq_self_iff.mpr fun b hb => decide_eq_true (inv.ne_zero ?_)
    refine inv.intact.received_prefix.subset ?_
    rw [hreceived]
    exact List.mem_append_right _ hb
  refine ⟨inv.intact, inv.sent, ⟨done ++ buf, ?_, ?_⟩, inv.fits, inv.threads, inv.printed, inv.order,
    fun h => (nomatch h), inv.not_joined (by rw [hcopying]; exact fun h => (nomatch h))⟩
  · show s.file ++ buf.takeWhile (· ≠ 0) = old ++ (done ++ buf)
    rw [hwhole, hfile, List.append_assoc]
  · show s.pipe.received = done ++ buf ++ []
    rw [hreceived, List.append_nil]
    rfl

/-- It ends. -/
theorem LoggerInv.exit (inv : LoggerInv old s) (hreading : s.reader = .reading) (hempty : s.pipe.pending = [])
    (hclosed : s.isOpen = false) : LoggerInv old { s with reader := .exited } := by
  obtain ⟨done, hfile, hreceived⟩ := inv.copied
  rw [hreading] at hreceived
  exact ⟨inv.intact, inv.sent, ⟨done, hfile, hreceived⟩, inv.fits, inv.threads, inv.printed, inv.order,
    fun _ => ⟨hempty, hclosed⟩, fun _ => rfl⟩

/-- `pipe_logger_destroy` goes on. -/
theorem LoggerInv.ending (inv : LoggerInv old s) (running : Bool) {d : LoggerEnd}
    (hopen : s.reader = .exited → d ≠ .idle ∧ d ≠ .stopped) (hjoined : d = .joined → s.reader = .exited) :
    LoggerInv old { s with running := running, destroyer := d } := by
  refine ⟨inv.intact, inv.sent, inv.copied, inv.fits, inv.threads, inv.printed, inv.order, fun hexited => ?_,
    hjoined⟩
  obtain ⟨hempty, hclosed⟩ := inv.exited hexited
  obtain ⟨hidle, hstopped⟩ := hopen hexited
  exact ⟨hempty, PipeLogger.isOpen_eq_false.mpr ⟨decide_eq_false fun h => h.elim hidle hstopped,
    (PipeLogger.isOpen_eq_false.mp hclosed).2⟩⟩

/-- **One step** keeps the invariant. -/
theorem LoggerInv.step (inv : LoggerInv old s) {a : LoggerAct} (ha : a.Fits) (hs : s.step a = some s') :
    LoggerInv old s' := by
  cases a with
  | call c =>
    simp only [PipeLogger.step] at hs
    split at hs
    · cases hs
    · cases hs
      exact inv.call ha
  | print k =>
    simp only [PipeLogger.step] at hs
    split at hs
    · rename_i hk
      cases hs
      refine inv.move hk (by decide) ?_ ?_ ?_
      · split <;> decide
      · split
        · rename_i hprints
          obtain ⟨-, hsome⟩ := hprints
          intro _
          by_contra hempty
          rw [pipeLoggerMsg, if_neg hempty] at hsome
          cases hsome
        · exact fun h => (nomatch h)
      · split <;> exact fun h => (nomatch h)
    · cases hs
  | enter k =>
    simp only [PipeLogger.step] at hs
    split at hs
    · rename_i hk
      cases hs
      refine inv.move hk (by decide) ?_ (fun _ => inv.printed k .writing hk rfl) ?_
      · split <;> decide
      · split
        · rename_i haccepts
          exact fun _ => haccepts
        · exact fun h => (nomatch h)
    · cases hs
  | write k =>
    simp only [PipeLogger.step] at hs
    split at hs
    · rename_i hk
      split at hs
      · cases hs
        exact inv.write hk
      · cases hs
    · cases hs
  | read n =>
    simp only [PipeLogger.step] at hs
    split at hs
    · rename_i hreading
      split at hs
      · rename_i hempty
        split at hs
        · cases hs
        · rename_i hclosed
          cases hs
          exact inv.exit hreading hempty (by simpa using hclosed)
      · split at hs
        · cases hs
          exact inv.read hreading n
        · cases hs
    · cases hs
  | copy cut =>
    cases ha
    simp only [PipeLogger.step] at hs
    split at hs
    · rename_i buf hcopying
      cases hs
      exact inv.copy hcopying
    · cases hs
  | stop =>
    simp only [PipeLogger.step] at hs
    split at hs
    · rename_i hidle
      cases hs
      refine inv.ending false (fun hexited => ?_) fun h => (nomatch h)
      have hclosed := (PipeLogger.isOpen_eq_false.mp (inv.exited hexited).2).1
      rw [PipeLogger.accepts, hidle] at hclosed
      cases hclosed
    · cases hs
  | close =>
    simp only [PipeLogger.step] at hs
    split at hs
    · cases hs
      exact inv.ending s.running (fun _ => ⟨fun h => (nomatch h), fun h => (nomatch h)⟩) fun h => (nomatch h)
    · cases hs
  | join =>
    simp only [PipeLogger.step] at hs
    split at hs
    · rename_i hboth
      cases hs
      exact inv.ending s.running (fun _ => ⟨fun h => (nomatch h), fun h => (nomatch h)⟩) fun _ => hboth.2
    · cases hs

end Invariant

/-! ## Progress -/

/-- What is left to do for the writer thread. -/
def PipeLogger.work (s : PipeLogger) : Nat :=
  2 * s.pipe.pending.length +
    match s.reader with
    | .copying _ => 2
    | .reading => 1
    | .exited => 0

section Progress

variable {old : CStr} {s s' : PipeLogger} {a : LoggerAct}

theorem PipeLogger.step_work (ha : a.isReader = true) (hs : s.step a = some s') : s'.work < s.work := by
  cases a with
  | read n =>
    simp only [PipeLogger.step] at hs
    split at hs
    · rename_i hreading
      split at hs
      · split at hs
        · cases hs
        · cases hs
          simp only [PipeLogger.work, hreading]
          omega
      · split at hs
        · rename_i hsize
          cases hs
          simp only [PipeLogger.work, Channel.receive, hreading, List.length_drop]
          omega
        · cases hs
    · cases hs
  | copy cut =>
    simp only [PipeLogger.step] at hs
    split at hs
    · rename_i buf hcopying
      cases hs
      simp only [PipeLogger.work, hcopying]
      omega
    · cases hs
  | call c => cases ha
  | print k => cases ha
  | enter k => cases ha
  | write k => cases ha
  | stop => cases ha
  | close => cases ha
  | join => cases ha

/-- The writer thread can go on while there is something in the pipe, and to its end once nobody can write. -/
theorem PipeLogger.exists_step (hlive : s.reader ≠ .exited) (h : s.pipe.pending ≠ [] ∨ s.isOpen = false) :
    ∃ a, a.isReader = true ∧ (s.step a).isSome = true := by
  cases hr : s.reader with
  | copying buf => exact ⟨.copy none, rfl, by simp [PipeLogger.step, hr]⟩
  | reading =>
    by_cases hempty : s.pipe.pending = []
    · have hclosed := h.resolve_left fun hne => hne hempty
      exact ⟨.read 0, rfl, by simp [PipeLogger.step, hr, hempty, hclosed]⟩
    · have hone : 1 ≤ s.pipe.pending.length := List.length_pos_of_ne_nil hempty
      exact ⟨.read 1, rfl, by simp [PipeLogger.step, hr, hempty, hone, LOG_MSG_MAX]⟩
  | exited => exact absurd hr hlive

/-! ## Runs -/

/-- **The log file gets every line.**  Callers log messages without NUL that fit into the buffer with the
time in front, and the log file takes what is written to it.  In every interleaving of them with the writer
thread and `pipe_logger_destroy`, however the writer thread cuts what it reads:

* the file, the buffer of the writer thread and the pipe hold what the file held before and then the lines of
  the calls that have written, whole and in that order, each of these calls once;
* a call that waits for room waits only while the writer thread can go on; it can go on as long as there is
  something in the pipe, and to its end once nobody can write, and every step leaves less to do;
* when `pipe_logger_destroy` returns, no call is in `write`, and the file has every line. -/
theorem log_file_has_every_line (h : Reachable PipeLogger.step (fun _ a => a.Fits) (PipeLogger.create old) s) :
    s.file ++ s.reader.inHand ++ s.pipe.pending = old ++ (s.order.map s.line).flatten ∧
      (s.order.Nodup ∧ ∀ k, k ∈ s.order ↔ s.writes[k]? = some .written) ∧
      (∀ k ∈ s.order, s.line k = (s.args k).stamp ++ (s.args k).message ++ [10]) ∧
      (∀ k, s.writes[k]? = some .inWrite → s.step (.write k) = none →
        ∃ a, a.isReader = true ∧ (s.step a).isSome = true) ∧
      (s.reader ≠ .exited → s.pipe.pending ≠ [] ∨ s.isOpen = false →
        ∃ a, a.isReader = true ∧ (s.step a).isSome = true) ∧
      (∀ a s', a.isReader = true → s.step a = some s' → s'.work < s.work) ∧
      (s.destroyer = .joined → s.file = old ++ (s.order.map s.line).flatten ∧ .inWrite ∉ s.writes) := by
  have inv : LoggerInv old s :=
    Reachable.invariant (loggerInv_create old) (fun s a s' inv ha hs => inv.step ha hs) h
  have horder : s.file ++ s.reader.inHand ++ s.pipe.pending = old ++ (s.order.map s.line).flatten := by
    obtain ⟨done, hfile, hreceived⟩ := inv.copied
    rw [hfile, List.append_assoc old, ← hreceived, List.append_assoc, inv.intact, inv.sent]
  refine ⟨horder, ⟨inv.order.nodup, inv.order.mem⟩,
    fun k hk => inv.line_eq ((inv.order.mem k).mp hk) rfl, fun k hk hwaits => ?_,
    fun hlive => PipeLogger.exists_step hlive, fun a s' => PipeLogger.step_work, fun hjoined => ?_⟩
  · have hlt : k < s.calls.length := inv.threads ▸ (List.getElem?_eq_some_iff.mp hk).1
    have hsize : (s.line k).length ≤ LOG_MSG_MAX := by
      have htotal := (inv.fits _ (PipeLogger.args_mem hlt)).1
      unfold LogCallArgs.total at htotal
      rw [inv.line_eq hk rfl, List.length_append, List.length_append, List.length_singleton]
      omega
    simp only [PipeLogger.step, hk, if_true] at hwaits
    split at hwaits
    · cases hwaits
    · rename_i hfull
      have hpending : s.pipe.pending ≠ [] := fun hempty => by
        rw [hempty, List.length_nil] at hfull
        unfold PIPE_SIZE at hfull
        unfold LOG_MSG_MAX at hsize
        omega
      refine PipeLogger.exists_step (fun hexited => ?_) (Or.inl hpending)
      exact hpending (inv.exited hexited).1
  · have hexited := inv.joined hjoined
    obtain ⟨hempty, hclosed⟩ := inv.exited hexited
    refine ⟨?_, (PipeLogger.isOpen_eq_false.mp hclosed).2⟩
    rw [hexited, hempty, List.append_nil] at horder
    rw [← horder]
    exact (List.append_nil _).symm

end Progress

/-- Two calls write, the first of them after the write end has been closed behind it.  The writer thread reads
the first line and part of the second, and then the rest. -/
theorem log_file_has_every_line_two : ∃ s,
    Reachable PipeLogger.step (fun _ a => a.Fits) (PipeLogger.create (text "old\n")) s ∧
      s.destroyer = .joined ∧ (s.file = text "old\n" ++ (s.order.map s.line).flatten ∧ .inWrite ∉ s.writes) ∧
        s.order = [1, 0] := by
  have hrun : ∃ s, runSteps PipeLogger.step (fun _ _ => true) (PipeLogger.create (text "old\n"))
      [.call ⟨text "[1] ", text "up", fun _ => 0⟩, .call ⟨text "[2] ", text "down", fun _ => 7⟩, .print 0,
        .print 1, .enter 1, .write 1, .enter 0, .read 6, .stop, .close, .write 0, .copy none, .read 10, .copy none,
        .read 0, .join] = some s ∧
      s.destroyer = .joined ∧ s.order = [1, 0] := ⟨_, rfl, rfl, rfl⟩
  obtain ⟨s, hrun, hjoined, horder⟩ := hrun
  have hreach := Reachable.of_labels (p := LoggerAct.Fits) (by
    simp only [List.forall_mem_cons, LoggerAct.Fits, LogCallArgs.Fits, List.not_mem_nil, false_implies,
      implies_true, and_true]
    decide +kernel) hrun
  obtain ⟨-, -, -, -, -, -, hend⟩ := log_file_has_every_line hreach
  exact ⟨s, hreach, hjoined, hend hjoined, horder⟩

end Ticketing
