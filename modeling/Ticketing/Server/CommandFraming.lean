import Ticketing.Server.Privileges

/-!
# Command framing (`server/main.c`)

A client sends a stream of bytes; `read_command_line` sees it one byte at a time, with failed reads
in between.  However the bytes arrive, the lines of the stream come out one by one.

* `streamBytes`, `streamLines` — the bytes that arrived, and the newline-terminated lines in them.
* `Delivers` — read results that bring certain lines, then an unterminated rest.
* `readCommandLine_line` — one call takes one line off the stream.
* `lineResults`, `commandLoop` — successive calls, and what the command loop hands to the parser.
* `command_framing` — both, for every stream.
-/

set_option autoImplicit false

namespace Ticketing

open CText

/-! ## Lines of a stream -/

/-- The bytes that the read results bring. -/
def streamBytes (input : List ReadResult) : CStr :=
  input.filterMap fun
    | .byte b => some b
    | _ => none

/-- The newline-terminated lines, without the unterminated rest. -/
def streamLines (stream : CStr) : List CStr := (stream.splitOn 10).dropLast

/-- The line fits into the buffer and has no NUL byte. -/
def wellFormedLine (capacity : Nat) (line : CStr) : Bool :=
  decide (line.length < capacity) && !line.contains 0

/-- What a line is turned into. -/
def frameLine (capacity : Nat) (line : CStr) : LineResult :=
  if wellFormedLine capacity line then .line line else .oversized

theorem streamBytes_append (a b : List ReadResult) :
    streamBytes (a ++ b) = streamBytes a ++ streamBytes b := List.filterMap_append

theorem streamLines_rest {s : CStr} (h : 10 ∉ s) : streamLines s = [] := by
  rw [streamLines, List.splitOn_eq_singleton h]
  rfl

theorem streamLines_line {a : CStr} (h : 10 ∉ a) (b : CStr) :
    streamLines (a ++ 10 :: b) = a :: streamLines b := by
  rw [streamLines, List.splitOn_append_cons_self_of_not_mem h,
    List.dropLast_cons_of_ne_nil (List.splitOn_ne_nil _ _)]
  rfl

/-- Read results without an end of file that bring the given lines. -/
inductive Delivers : List ReadResult → List CStr → Prop where
  | rest {input : List ReadResult} : .closed ∉ input → 10 ∉ streamBytes input → Delivers input []
  | line {a b : List ReadResult} {lines : List CStr} : .closed ∉ a → 10 ∉ streamBytes a →
      Delivers b lines → Delivers (a ++ .byte 10 :: b) (streamBytes a :: lines)

theorem mem_streamBytes {input : List ReadResult} {b : UInt8} :
    b ∈ streamBytes input ↔ .byte b ∈ input := by
  rw [streamBytes, List.mem_filterMap]
  constructor
  · rintro ⟨r, hr, hb⟩
    cases r with
    | byte c =>
      cases hb
      exact hr
    | retry => cases hb
    | closed => cases hb
  · intro h
    exact ⟨.byte b, h, rfl⟩

/-- All input brings the lines of its stream. -/
theorem delivers_streamLines : ∀ {input : List ReadResult}, .closed ∉ input →
    Delivers input (streamLines (streamBytes input)) := by
  intro input
  induction hn : input.length using Nat.strong_induction_on generalizing input with
  | _ n ih =>
    intro hopen
    by_cases hnl : (.byte 10 : ReadResult) ∈ input
    · obtain ⟨a, b, rfl, ha⟩ := List.eq_append_cons_of_mem hnl
      rw [List.mem_append, List.mem_cons, not_or, not_or] at hopen
      obtain ⟨hopena, -, hopenb⟩ := hopen
      have hline : 10 ∉ streamBytes a := fun h => ha (mem_streamBytes.mp h)
      have hstream : streamBytes (a ++ .byte 10 :: b) = streamBytes a ++ 10 :: streamBytes b :=
        streamBytes_append a _
      rw [hstream, streamLines_line hline]
      refine .line hopena hline (ih b.length ?_ rfl hopenb)
      rw [← hn, List.length_append, List.length_cons]
      omega
    · have hrest : 10 ∉ streamBytes input := fun h => hnl (mem_streamBytes.mp h)
      rw [streamLines_rest hrest]
      exact .rest hopen hrest

/-! ## One call -/

section Capacity

variable {capacity : Nat}

/-- The loop over bytes of one line: what fits is stored, and the flag remembers the rest. -/
theorem readLoop_append {input : List ReadResult} (hopen : .closed ∉ input)
    (hline : 10 ∉ streamBytes input) (rest : List ReadResult) :
    ∀ {buf : CStr} (overflow : Bool), buf.length < capacity →
      readLoop capacity (input ++ rest) buf overflow =
        readLoop capacity rest ((buf ++ streamBytes input).take (capacity - 1))
          (overflow || (streamBytes input).contains 0 ||
            decide (capacity ≤ buf.length + (streamBytes input).length)) := by
  induction input with
  | nil =>
    intro buf overflow hbuf
    have htake : buf.take (capacity - 1) = buf := List.take_of_length_le (by omega)
    have hfits : ¬ capacity ≤ buf.length := by omega
    simp [streamBytes, htake, hfits]
  | cons r input ih =>
    intro buf overflow hbuf
    rw [List.mem_cons, not_or] at hopen
    cases r with
    | closed => exact absurd rfl hopen.1
    | retry => exact ih hopen.2 hline overflow hbuf
    | byte ch =>
      have hbytes : streamBytes (.byte ch :: input) = ch :: streamBytes input := rfl
      rw [hbytes] at hline ⊢
      rw [List.mem_cons, not_or] at hline
      simp only [List.cons_append, readLoop, if_neg (Ne.symm hline.1)]
      split
      · rename_i hroom
        rw [ih hopen.2 hline.2 _ (by rw [List.length_append]; exact hroom)]
        simp only [List.append_assoc, List.singleton_append, List.length_append, List.length_cons,
          List.length_nil, List.contains_cons, Bool.or_assoc, Nat.zero_add, Nat.add_assoc,
          Nat.add_comm 1, Bool.beq_comm]
      · rename_i hfull
        -- the buffer is full: the byte is dropped, and the line is too long
        have hlen : buf.length = capacity - 1 := by omega
        have hover : capacity ≤ buf.length + (ch :: streamBytes input).length := by
          rw [List.length_cons]
          omega
        rw [ih hopen.2 hline.2 true hbuf, List.take_left' hlen, List.take_left' hlen,
          decide_eq_true hover, Bool.true_or, Bool.true_or, Bool.or_true]

/-- **One call takes one line off the stream**, however its bytes arrive. -/
theorem readCommandLine_line (hcap : 0 < capacity) {a : List ReadResult} (hopen : .closed ∉ a)
    (hline : 10 ∉ streamBytes a) (rest : List ReadResult) :
    readCommandLine capacity (a ++ .byte 10 :: rest) =
      some (frameLine capacity (streamBytes a), rest) := by
  have hflag : ((streamBytes a).contains 0 || decide (capacity ≤ (streamBytes a).length)) =
      !wellFormedLine capacity (streamBytes a) := by
    rw [wellFormedLine, Bool.not_and, Bool.not_not, Bool.or_comm, ← decide_not]
    exact congrArg (· || _) (decide_eq_decide.mpr Nat.not_lt.symm)
  rw [readCommandLine, readLoop_append hopen hline _ false hcap]
  simp only [readLoop, if_true, List.nil_append, List.length_nil, Nat.zero_add, Bool.false_or,
    hflag, frameLine]
  cases hwf : wellFormedLine capacity (streamBytes a) with
  | false => rfl
  | true =>
    rw [wellFormedLine, Bool.and_eq_true, decide_eq_true_iff] at hwf
    rw [List.take_of_length_le (by omega)]
    rfl

/-- While a line is incomplete, the call goes on waiting. -/
theorem readCommandLine_rest (hcap : 0 < capacity) {input : List ReadResult}
    (hopen : .closed ∉ input) (hline : 10 ∉ streamBytes input) :
    readCommandLine capacity input = none := by
  have h := readLoop_append hopen hline [] false (show ([] : CStr).length < capacity from hcap)
  rw [List.append_nil] at h
  exact h

/-- At the end of the stream an unterminated rest is dropped. -/
theorem readCommandLine_closed (hcap : 0 < capacity) {input : List ReadResult}
    (hopen : .closed ∉ input) (hline : 10 ∉ streamBytes input) :
    readCommandLine capacity (input ++ [.closed]) = some (.closed, []) :=
  readLoop_append hopen hline [.closed] false (show ([] : CStr).length < capacity from hcap)

/-! ## Successive calls -/

/-- The results of up to `n` successive calls of `read_command_line`; a call that still waits is
the last one. -/
def lineResults (capacity : Nat) : Nat → List ReadResult → List LineResult
  | 0, _ => []
  | n + 1, input =>
    match readCommandLine capacity input with
    | none => []
    | some (r, rest) => r :: lineResults capacity n rest

theorem lineResults_delivers (hcap : 0 < capacity) {input : List ReadResult} {lines : List CStr}
    (h : Delivers input lines) : ∀ n,
    lineResults capacity n input = (lines.map (frameLine capacity)).take n ∧
      lineResults capacity n (input ++ [.closed]) =
        (lines.map (frameLine capacity) ++ [LineResult.closed]).take n := by
  induction h with
  | rest hopen hline =>
    intro n
    cases n with
    | zero => exact ⟨rfl, rfl⟩
    | succ n =>
      simp only [lineResults, readCommandLine_rest hcap hopen hline,
        readCommandLine_closed hcap hopen hline]
      cases n <;> exact ⟨rfl, rfl⟩
  | line hopen hline hrest ih =>
    intro n
    cases n with
    | zero => exact ⟨rfl, rfl⟩
    | succ n =>
      simp only [lineResults, List.append_assoc, List.cons_append,
        readCommandLine_line hcap hopen hline, List.map_cons, List.take_succ_cons]
      exact ⟨congrArg _ (ih n).1, congrArg _ (ih n).2⟩

end Capacity

/-! ## The command loop -/

/-- What one pass of the command loop hands to `parse_command`. -/
def handedToParser : LineResult → Option CStr
  | .line buf => if stripEol buf = [] then none else some (stripEol buf)
  | _ => none

/-- The line is a `QUIT` command. -/
def isQuit (buf : CStr) : Bool := (parseCommand buf).any fun cmd => cmd.type == .quit

/-- Up to the first `QUIT`, which is the last one. -/
def untilQuit : List CStr → List CStr
  | [] => []
  | buf :: bufs => buf :: if isQuit buf then [] else untilQuit bufs

section Loop

variable {libc : FloatLibc} {slot : Fin MAX_CONNECTIONS}

/-- The pass ends the loop at the end of the stream and at `QUIT`. -/
theorem executeLine_quit {env : CmdEnv} {s : Server} {line : LineResult} {r : Reply}
    (h : executeLine libc env s slot line = some r) :
    r.quit = (line == .closed || (handedToParser line).any isQuit) := by
  cases line with
  | oversized =>
    cases h
    rfl
  | closed =>
    cases h
    rfl
  | line buf =>
    simp only [executeLine] at h
    split at h
    · rename_i hempty
      cases h
      simp [handedToParser, hempty]
    · rename_i hne
      simp only [handedToParser, if_neg hne, Option.any_some, isQuit]
      split at h
      · rename_i hparse
        cases h
        simp [hparse]
      · rename_i cmd hparse
        simp only [executeCommand] at h
        split at h
        · rename_i hquit
          cases h
          simp [hparse, hquit]
        · rename_i hquit
          split at h
          · cases h
            simp [hparse, hquit]
          · obtain ⟨_, -, rfl⟩ := Option.map_eq_some_iff.mp h
            simp [hparse, hquit]

/-- Up to `n` passes of the command loop of `client_handler`: the strings it hands to
`parse_command`.  What the `i`-th pass from the end finds of the server is up to the other clients. -/
def commandLoop (libc : FloatLibc) (slot : Fin MAX_CONNECTIONS) (found : Nat → CmdEnv × Server) :
    Nat → List ReadResult → List CStr
  | 0, _ => []
  | n + 1, input =>
    match readCommandLine MAX_CMD_LENGTH input with
    | none => []
    | some (line, rest) =>
      (handedToParser line).toList ++
        match executeLine libc (found n).1 (found n).2 slot line with
        | none => []
        | some r => if r.quit then [] else commandLoop libc slot found n rest

/-- The lines that reach the parser: well-formed, without the carriage returns at their end, and
not empty. -/
def commandLines (lines : List CStr) : List CStr :=
  ((lines.filter (wellFormedLine MAX_CMD_LENGTH)).map stripEol).filter (· ≠ [])

theorem commandLines_cons (line : CStr) (lines : List CStr) :
    commandLines (line :: lines) =
      (handedToParser (frameLine MAX_CMD_LENGTH line)).toList ++ commandLines lines := by
  by_cases hwf : wellFormedLine MAX_CMD_LENGTH line = true
  · by_cases hempty : stripEol line = [] <;>
      simp [commandLines, frameLine, handedToParser, hwf, hempty]
  · simp [commandLines, frameLine, handedToParser, hwf]

theorem commandLoop_delivers {found : Nat → CmdEnv × Server} {input : List ReadResult}
    {lines : List CStr} (h : Delivers input lines) {tail : List ReadResult}
    (htail : tail = [] ∨ tail = [.closed]) : ∀ n,
    commandLoop libc slot found n (input ++ tail) <+: untilQuit (commandLines lines) ∧
      ((∀ i line, (executeLine libc (found i).1 (found i).2 slot line).isSome) → lines.length ≤ n →
        commandLoop libc slot found n (input ++ tail) = untilQuit (commandLines lines)) := by
  have hcap : 0 < MAX_CMD_LENGTH := by decide
  induction h with
  | @rest input hopen hline =>
    intro n
    have hnone : commandLoop libc slot found n (input ++ tail) = [] := by
      cases n with
      | zero => rfl
      | succ n =>
        rcases htail with rfl | rfl
        · rw [List.append_nil, commandLoop, readCommandLine_rest hcap hopen hline]
        · rw [commandLoop, readCommandLine_closed hcap hopen hline]
          rfl
    rw [hnone]
    exact ⟨List.nil_prefix, fun _ _ => rfl⟩
  | @line a b lines hopen hline hrest ih =>
    intro n
    cases n with
    | zero => exact ⟨List.nil_prefix, fun _ hn => absurd hn (by simp)⟩
    | succ n =>
      obtain ⟨hpre, heq⟩ := ih n
      rw [List.append_assoc, List.cons_append, commandLoop, readCommandLine_line hcap hopen hline,
        commandLines_cons]
      have hopen' : (frameLine MAX_CMD_LENGTH (streamBytes a) == LineResult.closed) = false := by
        rw [frameLine]
        split <;> rfl
      generalize frameLine MAX_CMD_LENGTH (streamBytes a) = result at hopen'
      have huntil : untilQuit ((handedToParser result).toList ++ commandLines lines) =
          (handedToParser result).toList ++
            if (handedToParser result).any isQuit then [] else untilQuit (commandLines lines) := by
        cases handedToParser result <;> rfl
      rw [huntil]
      dsimp only
      cases hreply : executeLine libc (found n).1 (found n).2 slot result with
      | none =>
        refine ⟨?_, fun hall _ => ?_⟩
        · rw [List.append_nil]
          exact List.prefix_append _ _
        · have hsome := hall n result
          rw [hreply] at hsome
          cases hsome
      | some r =>
        have hquit : r.quit = (handedToParser result).any isQuit := by
          rw [executeLine_quit hreply, hopen', Bool.false_or]
        simp only [hquit]
        refine ⟨(List.prefix_append_right_inj _).mpr ?_, fun hall hn => congrArg _ ?_⟩
        · split
          · exact List.prefix_rfl
          · exact hpre
        · split
          · rfl
          · exact heq hall (by simpa using hn)

end Loop

/-- **Command framing.**  However a stream arrives, successive calls of `read_command_line` give its
lines in order, -2 for a line that is too long or has a NUL byte, and -1 at the end of the stream.  Up
to the first `QUIT` the handler parses the well-formed lines, without the carriage returns at their
end, that are not empty then; all of them, as far as the commands return. -/
theorem command_framing (libc : FloatLibc) (slot : Fin MAX_CONNECTIONS)
    (found : Nat → CmdEnv × Server) (input : List ReadResult) (hopen : .closed ∉ input) :
    let lines := streamLines (streamBytes input)
    (∀ n, lineResults MAX_CMD_LENGTH n input = (lines.map (frameLine MAX_CMD_LENGTH)).take n ∧
      lineResults MAX_CMD_LENGTH n (input ++ [.closed]) =
        (lines.map (frameLine MAX_CMD_LENGTH) ++ [LineResult.closed]).take n) ∧
    ∀ tail, tail = [] ∨ tail = [ReadResult.closed] → ∀ n,
      commandLoop libc slot found n (input ++ tail) <+: untilQuit (commandLines lines) ∧
      ((∀ i line, (executeLine libc (found i).1 (found i).2 slot line).isSome) → lines.length ≤ n →
        commandLoop libc slot found n (input ++ tail) = untilQuit (commandLines lines)) :=
  ⟨lineResults_delivers (by decide) (delivers_streamLines hopen),
    fun _ htail => commandLoop_delivers (delivers_streamLines hopen) htail⟩

/-- A command environment without faults, on a fresh server. -/
def freshServer : Nat → CmdEnv × Server := fun _ => (⟨0, fun _ => .none, [], fun _ => true⟩, serverInit 0)

/-- A carriage return alone is a well-formed line that is not empty, but the handler strips it. -/
theorem carriage_return_not_parsed :
    let input := [ReadResult.byte 13, .byte 10]
    untilQuit ((streamLines (streamBytes input)).filter
        fun line => wellFormedLine MAX_CMD_LENGTH line && line != []) = [[13]] ∧
      commandLoop noFloats firstSlot freshServer 2 (input ++ [.closed]) = [] := by
  decide

/-- On it every line of a client who has not logged in is answered. -/
theorem executeLine_fresh (line : LineResult) :
    (executeLine noFloats (freshServer 0).1 (freshServer 0).2 firstSlot line).isSome = true := by
  cases line with
  | oversized => rfl
  | closed => rfl
  | line buf =>
    simp only [executeLine]
    split
    · rfl
    · split
      · rfl
      · rename_i cmd _
        simp only [executeCommand]
        split
        · rfl
        · split
          · rfl
          · rename_i hquit hdenied
            rw [Option.isSome_map]
            have hguest : ((freshServer 0).2.auth.sessions firstSlot).role = .guest := rfl
            simp only [hguest, rbacCheck] at hdenied
            -- what a guest may not do does not get as far as a handler
            have hallowed : ∀ t, cmd.type = t → permissionMatrix t .guest = true := by
              rintro t rfl
              by_contra hno
              exact hdenied (by rw [Bool.eq_false_of_not_eq_true hno]; rfl)
            unfold handleCommand
            cases hcmd : cmd.type with
            | book => cases hallowed _ hcmd
            | cancel => cases hallowed _ hcmd
            | createEvent => cases hallowed _ hcmd
            | register =>
              dsimp only
              unfold handleRegister
              split
              · rfl
              · split
                · rfl
                · split
                  · rfl
                  · rw [Option.isSome_map, authRegister]
                    split
                    · rfl
                    · rfl
            | login =>
              simp only [handleLogin]
              split
              · rfl
              · split
                · rfl
                · split <;> rfl
            | deleteEvent => cases hallowed _ hcmd
            | _ => rfl

/-- A line with a NUL byte, an interrupted read in a `HELP` that ends in a carriage return, `QUIT`, a line
that nobody parses and the start of another. -/
theorem command_framing_interrupted :
    let input := [ReadResult.byte 0, .byte 10, .byte 72, .retry, .byte 69, .byte 76, .byte 80, .byte 13, .byte 10,
      .byte 81, .byte 85, .byte 73, .byte 84, .byte 10, .byte 72, .byte 10, .byte 72]
    lineResults MAX_CMD_LENGTH 5 (input ++ [.closed]) =
        [.oversized, .line (text "HELP\r"), .line (text "QUIT"), .line (text "H"), .closed] ∧
      commandLoop noFloats firstSlot freshServer 5 (input ++ [.closed]) = [text "HELP", text "QUIT"] := by
  intro input
  obtain ⟨hlines, hloop⟩ := command_framing noFloats firstSlot freshServer input (by decide)
  refine ⟨?_, ?_⟩
  · rw [(hlines 5).2]
    decide +kernel
  · rw [(hloop [.closed] (Or.inr rfl) 5).2 (fun _ => executeLine_fresh) (by decide +kernel)]
    decide +kernel

end Ticketing
