import Ticketing.Lib.Bytes

/-!
# Shared types and limits (`common/types.h`, `common/config.h`)

The enumerations, result codes, record layouts and numeric limits that the storage engine, the
transaction layer and the booking engine share.  Enumerators keep the numeric values of the C
enumerations where a value reaches a file (`WalOp.code`, `TableId.code`).
-/

set_option autoImplicit false

namespace Ticketing

/-- `table_id_t`. -/
inductive TableId where
  | users
  | events
  | seats
  | bookings
  | bookingSeats
  deriving DecidableEq, Repr

/-- The numeric value of a `table_id_t`. -/
def TableId.code : TableId → Nat
  | .users => 0
  | .events => 1
  | .seats => 2
  | .bookings => 3
  | .bookingSeats => 4

theorem TableId.code_injective {a b : TableId} (h : a.code = b.code) : a = b := by
  cases a <;> cases b <;> first | rfl | cases h

/-- All table identifiers, in numeric order. -/
def TableId.all : List TableId := [.users, .events, .seats, .bookings, .bookingSeats]

theorem TableId.mem_all (t : TableId) : t ∈ TableId.all := by
  cases t <;> decide

/-- `wal_op_type_t`. -/
inductive WalOp where
  | insert
  | update
  | delete
  | commit
  | abort
  | checkpoint
  deriving DecidableEq, Repr

/-- The numeric value of a `wal_op_type_t`. -/
def WalOp.code : WalOp → UInt8
  | .insert => 1
  | .update => 2
  | .delete => 3
  | .commit => 4
  | .abort => 5
  | .checkpoint => 6

theorem WalOp.code_injective {a b : WalOp} (h : a.code = b.code) : a = b := by
  cases a <;> cases b <;> first | rfl | exact absurd h (by decide)

/-- `user_role_t`. -/
inductive UserRole where
  | guest
  | customer
  | organizer
  | admin
  deriving DecidableEq, Repr

/-- `seat_status_t`. -/
inductive SeatStatus where
  | available
  | locked
  | booked
  deriving DecidableEq, Repr

/-- `event_status_t`. -/
inductive EventStatus where
  | active
  | cancelled
  deriving DecidableEq, Repr

/-- `booking_status_t`. -/
inductive BookingStatus where
  | confirmed
  | cancelled
  deriving DecidableEq, Repr

/-- `lock_type_t`. -/
inductive LockMode where
  | shared
  | exclusive
  deriving DecidableEq, Repr

/-- `etp_result_t`. -/
inductive EtpResult where
  | ok
  | errGeneric
  | errNotFound
  | errDuplicate
  | errFull
  | errIo
  | errLockConflict
  | errAuth
  | errPermission
  | errInvalidArg
  | errTxnAbort
  | errNoMemory
  | errCorruption
  | errSeatUnavail
  | errAlreadyExists
  deriving DecidableEq, Repr

/-! ## Limits -/

def PAGE_SIZE : Nat := 4096
def PAGE_HEADER_SIZE : Nat := 16
def BTREE_DEFAULT_ORDER : Nat := 128
def MAX_CONNECTIONS : Nat := 100
def MAX_CMD_LENGTH : Nat := 1024
def MAX_RESPONSE_SIZE : Nat := 65536
def MAX_CMD_ARGS : Nat := 16
def MAX_ARG_LEN : Nat := 256
def MAX_USERNAME_LEN : Nat := 31
def MAX_PASSWORD_LEN : Nat := 64
def MAX_SEAT_ROWS : Nat := 26
def MAX_SEATS_PER_ROW : Nat := 100
def MAX_SEATS_PER_BOOKING : Nat := 10
def MAX_ACTIVE_TXNS : Nat := 128
def MAX_LOCKS_PER_TXN : Nat := 64
def LOCK_TABLE_SIZE : Nat := 251

/-- `INVALID_PAGE_ID`. -/
def INVALID_PAGE_ID : Nat := 0xFFFFFFFF

/-- `INVALID_TXN_ID`. -/
def INVALID_TXN_ID : UInt32 := 0

/-- `INVALID_LSN`. -/
def INVALID_LSN : UInt64 := 0

/-! ## Record layouts -/

/-- `etp_record_size`. -/
def etpRecordSize : TableId → Nat
  | .users => 128
  | .events => 192
  | .seats => 32
  | .bookings => 64
  | .bookingSeats => 16

/-- `get_deleted_flag_offset`: `offsetof(..., is_deleted)` in the packed record of each table. -/
def getDeletedFlagOffset : TableId → Nat
  | .users => 110
  | .events => 162
  | .seats => 16
  | .bookings => 27
  | .bookingSeats => 8

/-- Offset of the primary key: `junction_id` for `booking_seats`, the first field elsewhere. -/
def keyOffset : TableId → Nat
  | .bookingSeats => 9
  | _ => 0

theorem keyOffset_le (t : TableId) : keyOffset t + 4 ≤ etpRecordSize t := by
  cases t <;> decide

theorem getDeletedFlagOffset_lt (t : TableId) : getDeletedFlagOffset t < etpRecordSize t := by
  cases t <;> decide

/-- In every record the key and the deletion flag are disjoint fields. -/
theorem key_flag_disjoint (t : TableId) :
    getDeletedFlagOffset t + 1 ≤ keyOffset t ∨ keyOffset t + 4 ≤ getDeletedFlagOffset t := by
  cases t <;> decide

/-- The C `int` that `n` becomes when it is computed by repeated increments: two's complement
wrap-around at `2 ^ 31`. -/
def toCInt (n : Int) : Int := n.bmod (2 ^ 32)

theorem toCInt_of_lt {n : Nat} (h : n < 2 ^ 31) : toCInt n = n := by
  unfold toCInt
  rw [Int.bmod_def]
  omega

end Ticketing
