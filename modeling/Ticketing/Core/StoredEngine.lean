import Ticketing.Core.RecordLayouts
import Ticketing.Storage.TableRestart
import Ticketing.Txn.TxnLog

/-!
# The booking engine over the tables on disk (`server/core/booking_engine.c`)

The system of `BookingEngine` with nothing left out below it: a table call runs through the index, the
buffer pool, the pages and the log, and the records in the hands of a call are the bytes it has read.

* `storeFind`, `storeInsert`, `storeUpdate`, `storeScan` — the calls of the table layer.
* `StoredPc`, `storedStep` — where a call stands, and its next step.
* `StoredWorld` — the system; input and output succeed, and memory may be missing for a lock.
* `StoredWorld.serverStep` — the same with orderly restarts.
-/

set_option autoImplicit false

namespace Ticketing

/-! ## Table calls -/

/-- `table_find_by_id`; `none` would be an access outside of an array. -/
def storeFind (s : TableStore) (id : TableId) (key : Nat) : Option (TableStore × Except EtpResult Bytes) :=
  let r := s.call (id, .find key)
  match r.1 with
  | .ok (.found a) => some (r.2, a)
  | _ => none

/-- `table_insert`. -/
def storeInsert (s : TableStore) (id : TableId) (record : Bytes) : Option (TableStore × Except EtpResult Nat) :=
  let r := s.call (id, .insert (recordAt record 0) allocOk)
  match r.1 with
  | .ok (.inserted rc newId) => some (r.2, if rc = .ok then .ok newId else .error rc)
  | _ => none

/-- `table_update`. -/
def storeUpdate (s : TableStore) (id : TableId) (key : Nat) (record : Bytes) :
    Option (TableStore × Except EtpResult Unit) :=
  let r := s.call (id, .update key (recordAt record 0))
  match r.1 with
  | .ok (.changed a) => some (r.2, a)
  | _ => none

/-- `table_scan`. -/
def storeScan (s : TableStore) (id : TableId) (filter : Bytes → Bool) (max : Nat) :
    Option (TableStore × List Bytes) :=
  let r := s.call (id, .scan filter max)
  match r.1 with
  | .ok (.scanned rows) => some (r.2, rows)
  | _ => none

/-! ## Program points -/

/-- The three `txn_lock` calls. -/
inductive StoredSite where
  | bookSeat (evt : Bytes) (i : Nat)
  | cancelBooking
  | cancelSeat (booking : Bytes) (rows : List Bytes) (i : Nat)

/-- The record a `txn_lock` call is about. -/
def StoredSite.key (c : Call) : StoredSite → LockKey
  | .bookSeat _ i => ⟨.seats, c.seats.getD i 0⟩
  | .cancelBooking => ⟨.bookings, c.bookingId⟩
  | .cancelSeat _ rows i => ⟨.seats, (rows.map BookingSeatLayout.seatId.get).getD i 0⟩

/-- The table calls inside a transaction. -/
inductive StoredTableStep where
  | bookVerify (evt : Bytes) (i : Nat)
  | bookInsert (evt : Bytes)
  | bookJunction (bookingId i : Nat)
  | bookFindSeat (bookingId i : Nat)
  | bookUpdateSeat (bookingId i : Nat) (seat : Bytes)
  | cancelFind
  | cancelScan (booking : Bytes)
  | cancelFindSeat (booking : Bytes) (rows : List Bytes) (i : Nat)
  | cancelUpdateSeat (booking : Bytes) (rows : List Bytes) (i : Nat) (seat : Bytes)
  | cancelUpdateBooking (booking : Bytes) (rows : List Bytes)

/-- Where a call stands, as in `Pc`. -/
inductive StoredPc where
  | bookStart
  | begin (evt : Option Bytes)
  | lock (stage : LockStage) (txn : UInt32) (site : StoredSite)
  | table (txn : UInt32) (ts : StoredTableStep)
  | commit (txn : UInt32) (out : Option Nat)
  | abort (txn : UInt32) (rc : EtpResult)
  | orphan (txn : UInt32) (key : LockKey)
  | release (locks : List LockKey) (rc : EtpResult) (out : Option Nat)

/-- Where control goes. -/
inductive StoredNext where
  | goto (pc : StoredPc)
  | ret (rc : EtpResult) (out : Option Nat)

/-- The first program point of a call. -/
def Call.storedEntry : Call → StoredPc
  | .book _ _ _ => .bookStart
  | .cancel _ _ => .begin none

/-- The verification loop of `booking_book_seats`. -/
def storedVerifyLoop (c : Call) (evt : Bytes) (txn : UInt32) (i : Nat) : StoredPc :=
  if i < c.seats.length then .table txn (.bookVerify evt i) else .table txn (.bookInsert evt)

/-- The lock loop of `booking_book_seats`. -/
def storedLockLoop (c : Call) (evt : Bytes) (txn : UInt32) (i : Nat) : StoredPc :=
  if i < c.seats.length then .lock .check txn (.bookSeat evt i) else storedVerifyLoop c evt txn 0

/-- The loop that writes junction records and seats. -/
def storedSeatLoop (c : Call) (txn : UInt32) (bookingId i : Nat) : StoredPc :=
  if i < c.seats.length then .table txn (.bookJunction bookingId i)
  else .commit txn (some bookingId)

/-- The loop of `booking_cancel`. -/
def storedCancelLoop (txn : UInt32) (booking : Bytes) (rows : List Bytes) (i : Nat) : StoredPc :=
  if i < rows.length then .lock .check txn (.cancelSeat booking rows i)
  else .table txn (.cancelUpdateBooking booking rows)

/-- What follows a successful `txn_lock`. -/
def storedAfterLock (c : Call) (txn : UInt32) : StoredSite → StoredPc
  | .bookSeat evt i => storedLockLoop c evt txn (i + 1)
  | .cancelBooking => .table txn .cancelFind
  | .cancelSeat booking rows i => .table txn (.cancelFindSeat booking rows i)

/-- What follows `txn_begin`. -/
def storedAfterBegin (c : Call) (txn : UInt32) : Option Bytes → StoredPc
  | some evt => storedLockLoop c evt txn 0
  | none => .lock .check txn .cancelBooking

/-! ## One step of a call -/

/-- A table call inside transaction `txn` and the local code up to the next step. -/
def storedTableStep (c : Call) (now : Int) (s : TableStore) (txn : UInt32) :
    StoredTableStep → Option (TableStore × StoredPc)
  | .bookVerify evt i =>
    (storeFind s .seats (c.seats.getD i 0)).map fun r =>
      (r.1, match r.2 with
        | .error _ => .abort txn .errNotFound
        | .ok seat =>
          if SeatLayout.eventId.get seat ≠ c.eventId then .abort txn .errInvalidArg
          else if SeatLayout.status.get seat ≠ SeatStatus.code .available then .abort txn .errSeatUnavail
          else storedVerifyLoop c evt txn (i + 1))
  | .bookInsert evt =>
    (storeInsert s .bookings (bookingBytes c evt now)).map fun r =>
      (r.1, match r.2 with
        | .error rc => .abort txn rc
        | .ok bookingId => storedSeatLoop c txn bookingId 0)
  | .bookJunction bookingId i =>
    (storeInsert s .bookingSeats (junctionBytes bookingId (c.seats.getD i 0))).map fun r =>
      (r.1, match r.2 with
        | .error rc => .abort txn rc
        | .ok _ => .table txn (.bookFindSeat bookingId i))
  | .bookFindSeat bookingId i =>
    (storeFind s .seats (c.seats.getD i 0)).map fun r =>
      (r.1, match r.2 with
        | .error rc => .abort txn rc
        | .ok seat => .table txn (.bookUpdateSeat bookingId i seat))
  | .bookUpdateSeat bookingId i seat =>
    (storeUpdate s .seats (c.seats.getD i 0) (bookedSeat c.userId seat)).map fun r =>
      (r.1, match r.2 with
        | .error rc => .abort txn rc
        | .ok () => storedSeatLoop c txn bookingId (i + 1))
  | .cancelFind =>
    (storeFind s .bookings c.bookingId).map fun r =>
      (r.1, match r.2 with
        | .error _ => .abort txn .errNotFound
        | .ok booking =>
          if BookingLayout.userId.get booking ≠ c.userId then .abort txn .errAuth
          else if BookingLayout.status.get booking ≠ BookingStatus.code .confirmed then .abort txn .errGeneric
          else .table txn (.cancelScan booking))
  | .cancelScan booking =>
    (storeScan s .bookingSeats (fun r => BookingSeatLayout.bookingId.get r == c.bookingId)
        MAX_SEATS_PER_BOOKING).map fun r =>
      (r.1, storedCancelLoop txn booking (exchangeSort BookingSeatLayout.seatId.get r.2) 0)
  | .cancelFindSeat booking rows i =>
    (storeFind s .seats ((rows.map BookingSeatLayout.seatId.get).getD i 0)).map fun r =>
      (r.1, match r.2 with
        -- a seat that is gone is skipped
        | .error _ => storedCancelLoop txn booking rows (i + 1)
        | .ok seat => .table txn (.cancelUpdateSeat booking rows i seat))
  | .cancelUpdateSeat booking rows i seat =>
    (storeUpdate s .seats ((rows.map BookingSeatLayout.seatId.get).getD i 0) (freedSeat seat)).map fun r =>
      (r.1, match r.2 with
        | .error _ => .abort txn .errIo
        | .ok () => storedCancelLoop txn booking rows (i + 1))
  | .cancelUpdateBooking booking _ =>
    (storeUpdate s .bookings c.bookingId (cancelledBooking booking)).map fun r =>
      (r.1, match r.2 with
        | .error _ => .abort txn .errIo
        | .ok () => .commit txn none)

/-- The argument checks and the lookup of the event. -/
def storedBookStart (c : Call) (s : TableStore) : Option (TableStore × StoredNext) :=
  if c.validSeats then
    (storeFind s .events c.eventId).map fun r =>
      (r.1, match r.2 with
        | .error _ => .ret .errNotFound none
        | .ok evt =>
          if EventLayout.status.get evt ≠ EventStatus.code .active then .ret .errGeneric none
          else .goto (.begin (some evt)))
  else some (s, .ret .errInvalidArg none)

/-- What the calls share. -/
structure StoredShared where
  store : TableStore
  locks : LockManager
  tm : TxnManager

/-- One step of a call; `none` while it has to wait. -/
def storedStep (c : Call) (now : Int) (lockAlloc : Bool) (s : StoredShared) :
    StoredPc → Option (StoredShared × StoredNext)
  | .bookStart => (storedBookStart c s.store).map fun r => ({ s with store := r.1 }, r.2)
  | .begin evt =>
    let r := txnBegin s.tm
    if r.1 = INVALID_TXN_ID then some (s, .ret .errGeneric none)
    else some ({ s with tm := r.2 }, .goto (storedAfterBegin c r.1 evt))
  | .lock .check txn site =>
    match txnLockCheck s.tm txn (site.key c) with
    | .refused => some (s, .goto (.abort txn .errGeneric))
    | .held => some (s, .goto (storedAfterLock c txn site))
    | .acquire => some (s, .goto (.lock .acquire txn site))
  | .lock .acquire txn site =>
    (lockMgrLock s.locks (site.key c) .exclusive).map fun locks =>
      if lockAlloc then ({ s with locks := locks }, .goto (.lock .register txn site))
      else (s, .goto (.abort txn .errGeneric))
  | .lock .register txn site =>
    match txnLockRegister s.tm txn (site.key c) with
    | some tm => some ({ s with tm := tm }, .goto (storedAfterLock c txn site))
    | none => some (s, .goto (.orphan txn (site.key c)))
  | .table txn ts => (storedTableStep c now s.store txn ts).map fun r => ({ s with store := r.1 }, .goto r.2)
  | .commit txn out =>
    -- the COMMIT record goes to the log that the tables write
    let r := txnCommit s.tm s.store.wal txn .ok .ok
    let s' := { s with store := { s.store with wal := r.2.2 } }
    match r.1 with
    | .refused => some (s', .ret .errIo none)
    | .failed => some (s', .goto (.abort txn .errIo))
    | .committed locks => some ({ s' with tm := r.2.1 }, .goto (.release locks .ok out))
  | .abort txn rc =>
    let r := txnAbortSection s.tm txn
    let s' := { s with store := { s.store with wal := (txnAbort s.tm s.store.wal txn .ok).2 } }
    match r.1 with
    | none => some (s', .ret rc none)
    | some locks => some ({ s' with tm := r.2 }, .goto (.release locks rc none))
  | .orphan txn key =>
    some ({ s with locks := (lockMgrUnlock s.locks key).2 }, .goto (.abort txn .errGeneric))
  | .release [] rc out => some (s, .ret rc out)
  | .release (key :: locks) rc out =>
    some ({ s with locks := (lockMgrUnlock s.locks key).2 }, .goto (.release locks rc out))

/-! ## The system -/

inductive StoredProc where
  | idle
  | running (c : Call) (pc : StoredPc)
  | done (c : Call) (rc : EtpResult) (out : Option Nat)

structure StoredWorld extends StoredShared where
  procs : Nat → StoredProc

/-- Who moves, at which time, and whether it finds memory for a lock. -/
inductive StoredAction where
  | start (i : Nat) (c : Call)
  | run (i : Nat) (now : Int) (lockAlloc : Bool)

/-- The call after control went to `next`. -/
def StoredNext.proc (c : Call) : StoredNext → StoredProc
  | .goto pc => .running c pc
  | .ret rc out => .done c rc out

/-- One step of the system. -/
def StoredWorld.step (w : StoredWorld) : StoredAction → Option StoredWorld
  | .start i c =>
    match w.procs i with
    | .idle => some { w with procs := Function.update w.procs i (.running c c.storedEntry) }
    | _ => none
  | .run i now lockAlloc =>
    match w.procs i with
    | .running c pc =>
      (storedStep c now lockAlloc w.toStoredShared pc).map fun r =>
        { toStoredShared := r.1, procs := Function.update w.procs i (r.2.proc c) }
    | _ => none

/-- The server at rest over its tables. -/
def StoredWorld.init (s : TableStore) : StoredWorld := ⟨⟨s, lockMgrCreate, txnMgrCreate⟩, fun _ => .idle⟩

/-- The arguments fit their types. -/
def Call.Fits (c : Call) : Prop :=
  c.userId < 2 ^ 32 ∧ c.eventId < 2 ^ 32 ∧ c.bookingId < 2 ^ 32 ∧ ∀ seat ∈ c.seatIds, seat < 2 ^ 32

/-- Every table has `k` ids left, and the log `k` numbers. -/
def TableStore.HasRoom (s : TableStore) (k : Nat) : Prop :=
  (∀ id, s.nextId id + k < 2 ^ 32) ∧ s.wal.nextLsn.toNat + k < 2 ^ 64

/-- The arguments and the time fit their types. -/
def StoredAction.Fits : StoredAction → Prop
  | .start _ c => c.Fits
  | .run _ now _ => -(2 ^ 63) ≤ now ∧ now < 2 ^ 63

/-- A step with numbers in their ranges. -/
def StoredWorld.Room (w : StoredWorld) (a : StoredAction) : Prop := w.store.HasRoom 1 ∧ a.Fits

/-- Such a step in which a transaction that begins gets an id that no active one has, and a cancellation that
has released a seat finds memory for its next lock. -/
def StoredWorld.Orderly (w : StoredWorld) (a : StoredAction) : Prop :=
  w.Room a ∧
    match a with
    | .start _ _ => True
    | .run i _ lockAlloc =>
      (∀ c evt, w.procs i = .running c (.begin evt) → (txnBegin w.tm).1 ≠ INVALID_TXN_ID →
        ¬ w.tm.Active (txnBegin w.tm).1) ∧
      ∀ c txn booking rows k, w.procs i = .running c (.lock .acquire txn (.cancelSeat booking rows k)) → 0 < k →
        lockAlloc = true

/-! ## Restarts -/

/-- A step of the system, or all tables closed and opened again over `n` frames and other descriptors, with new
managers. -/
inductive ServerAct where
  | run (a : StoredAction)
  | restart (n : Nat) (fd : TableId → Int)

def StoredWorld.serverStep (w : StoredWorld) : ServerAct → Option StoredWorld
  | .run a => w.step a
  | .restart n fd => (w.store.restart n fd).map StoredWorld.init

/-- No call is under way. -/
def StoredWorld.AtRest (w : StoredWorld) : Prop := ∀ i c pc, w.procs i ≠ .running c pc

/-- An orderly step, or a restart that waits for the calls. -/
def StoredWorld.InOrder (w : StoredWorld) : ServerAct → Prop
  | .run a => w.Orderly a
  | .restart n fd => w.AtRest ∧ (0 < n ∧ n < 2 ^ 30) ∧ Function.Injective fd

end Ticketing
