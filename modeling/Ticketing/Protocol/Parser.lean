import Ticketing.Auth.Rbac
import Mathlib.Data.List.DropRight

/-!
# Command parser (`server/protocol/parser.c`)

* `parseCommand` — the command name and at most `MAX_CMD_ARGS` arguments of at most
  `MAX_ARG_LEN - 1` bytes.  Where a run of non-blank bytes is longer, the loop stops in the middle
  of it and goes on from there with the next argument.
* `formatResponse` — status word, payload, newline.
-/

set_option autoImplicit false

namespace Ticketing

open CText

/-- `parsed_command_t`; `argc` is the number of arguments. -/
structure ParsedCommand where
  type : CommandType
  args : List CStr
  deriving DecidableEq, Repr

/-- The number of arguments. -/
def ParsedCommand.argc (cmd : ParsedCommand) : Nat := cmd.args.length

/-- `args[i]`; the array is zeroed first. -/
def ParsedCommand.arg (cmd : ParsedCommand) (i : Nat) : CStr := cmd.args.getD i []

/-- A line end. -/
def isEol (b : UInt8) : Bool := b == 10 || b == 13

/-- The trailing line ends of a string are stripped. -/
def stripEol (s : CStr) : CStr := s.rdropWhile isEol

/-- The bytes copied by one run of the token loop. -/
def takeToken (p : CStr) : CStr := (p.takeWhile (fun b => !isSpace b)).take (MAX_ARG_LEN - 1)

/-- The argument loop, for at most `n` more arguments. -/
def parseArgs : Nat → CStr → List CStr
  | 0, _ => []
  | n + 1, p =>
    let p := p.dropWhile isSpace
    if p = [] then []
    else takeToken p :: parseArgs n (p.drop (takeToken p).length)

/-- `parse_command`; `none` is the return value -1. -/
def parseCommand (raw : CStr) : Option ParsedCommand :=
  let p := (stripEol (strlcpy MAX_CMD_LENGTH raw)).dropWhile isSpace
  if p = [] then none
  else
    let name := takeToken p
    some ⟨rbacParseCommandType name, parseArgs MAX_CMD_ARGS (p.drop name.length)⟩

/-- `response_status_t`. -/
inductive ResponseStatus where
  | ok
  | error
  | denied
  deriving DecidableEq, Repr

/-- The status word. -/
def statusWord : ResponseStatus → CStr
  | .ok => text "OK "
  | .error => text "ERROR "
  | .denied => text "DENIED "

/-- `format_response` into a buffer of `size` bytes. -/
def formatResponse (size : Nat) (status : ResponseStatus) (payload : CStr) : CStr :=
  let offset := (statusWord status).length
  let total := offset + payload.length
  statusWord status ++ payload.take (size - offset - 1) ++ if total < size - 1 then [10] else []

end Ticketing
