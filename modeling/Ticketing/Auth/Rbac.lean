import Ticketing.Lib.CText
import Ticketing.Common.Types

/-!
# Commands and permissions (`common/protocol.h`, `server/auth/rbac.c`)

The command types with their names, and the permission matrix that `client_handler` consults before
it executes a command.
-/

set_option autoImplicit false

namespace Ticketing

open CText

/-- `command_type_t`. -/
inductive CommandType where
  | register
  | login
  | logout
  | listEvents
  | viewEvent
  | viewSeats
  | createEvent
  | deleteEvent
  | book
  | cancel
  | myBookings
  | listUsers
  | revenue
  | systemStats
  | help
  | quit
  | unknown
  deriving DecidableEq, Repr

/-- All command types, in numeric order. -/
def CommandType.all : List CommandType :=
  [.register, .login, .logout, .listEvents, .viewEvent, .viewSeats, .createEvent, .deleteEvent,
    .book, .cancel, .myBookings, .listUsers, .revenue, .systemStats, .help, .quit, .unknown]

/-- `rbac_command_name`. -/
def rbacCommandName : CommandType → CStr
  | .register => text "REGISTER"
  | .login => text "LOGIN"
  | .logout => text "LOGOUT"
  | .listEvents => text "LIST_EVENTS"
  | .viewEvent => text "VIEW_EVENT"
  | .viewSeats => text "VIEW_SEATS"
  | .createEvent => text "CREATE_EVENT"
  | .deleteEvent => text "DELETE_EVENT"
  | .book => text "BOOK"
  | .cancel => text "CANCEL"
  | .myBookings => text "MY_BOOKINGS"
  | .listUsers => text "LIST_USERS"
  | .revenue => text "REVENUE"
  | .systemStats => text "SYSTEM_STATS"
  | .help => text "HELP"
  | .quit => text "QUIT"
  | .unknown => text "UNKNOWN"

/-- `rbac_parse_command_type`: the first command with this name, in any case. -/
def rbacParseCommandType (cmdStr : CStr) : CommandType :=
  (CommandType.all.find? (fun t => strcasecmpEq cmdStr (rbacCommandName t))).getD .unknown

/-- One row of the permission matrix. -/
def permissionRow (guest customer organizer admin : Bool) : UserRole → Bool
  | .guest => guest
  | .customer => customer
  | .organizer => organizer
  | .admin => admin

/-- `permission_matrix`. -/
def permissionMatrix : CommandType → UserRole → Bool
  | .register => permissionRow true true true true
  | .login => permissionRow true true true true
  | .logout => permissionRow false true true true
  | .listEvents => permissionRow true true true true
  | .viewEvent => permissionRow true true true true
  | .viewSeats => permissionRow true true true true
  | .createEvent => permissionRow false false true true
  | .deleteEvent => permissionRow false false true true
  | .book => permissionRow false true true true
  | .cancel => permissionRow false true true true
  | .myBookings => permissionRow false true true true
  | .listUsers => permissionRow false false false true
  | .revenue => permissionRow false false true true
  | .systemStats => permissionRow false false false true
  | .help => permissionRow true true true true
  | .quit => permissionRow true true true true
  | .unknown => permissionRow false false false false

/-- `rbac_check`. -/
def rbacCheck (role : UserRole) (cmd : CommandType) : Bool := permissionMatrix cmd role

/-- `role_names`. -/
def roleName : UserRole → CStr
  | .guest => text "GUEST"
  | .customer => text "CUSTOMER"
  | .organizer => text "ORGANIZER"
  | .admin => text "ADMIN"

/-- `rbac_denial_reason`. -/
def rbacDenialReason (role : UserRole) (cmd : CommandType) : CStr :=
  if role = .guest ∧ (cmd = .book ∨ cmd = .cancel ∨ cmd = .myBookings ∨ cmd = .logout) then
    text "Please LOGIN first to use this command"
  else if role = .customer ∧ (cmd = .createEvent ∨ cmd = .deleteEvent) then
    text "Only ORGANIZERs can manage events"
  else if role ≠ .admin ∧ (cmd = .listUsers ∨ cmd = .systemStats) then
    text "ADMIN access required"
  else
    strlcpy 256 (text "Role '" ++ roleName role ++ text "' cannot execute '" ++ rbacCommandName cmd ++
      text "'")

end Ticketing
