import Ticketing.Lib.OrderedTable
import Ticketing.Lib.ExchangeSort
import Ticketing.Lib.Runs
import Ticketing.Txn.LockManager

/-!
# Booking engine (`server/core/booking_engine.c`) as a concurrent system

Any number of calls of `booking_book_seats` and `booking_cancel` share the tables, the lock manager
and the transaction manager.  One step of a call is one `table_*` call (serialised by
`storage_mutex`), one critical section of `tm->mutex`, one `lock_mgr_lock` or one
`lock_mgr_unlock`; the local code between two such points belongs to the step before it.

* `Pc` — where a call stands; the constructors follow the source from top to bottom.
* `pcStep` — one step of one call; `none` while it is blocked in `lock_mgr_lock`.
* `World`, `step` — the system; `Action` says which call moves and how the environment behaves.
* `Env` — whether storage, log and allocation succeed.  A failing table call may leave any
  contents behind, so nothing is assumed about the tables after one.
-/

set_option autoImplicit false

namespace Ticketing

/-! ## Records and tables -/

/-- The fields of `event_record_t` the engine reads. -/
structure EventRecord where
  status : EventStatus
  price : Float32

/-- `seat_record_t`; its key and deletion flag belong to the table. -/
structure SeatRecord where
  eventId : Nat
  rowLabel : UInt8
  seatNumber : UInt16
  status : SeatStatus
  bookedBy : Nat
  deriving DecidableEq, Repr

/-- `booking_record_t`. -/
structure BookingRecord where
  userId : Nat
  eventId : Nat
  seatCount : Nat
  totalAmount : Float32
  status : BookingStatus
  bookedAt : Int

/-- `booking_seat_record_t`; the junction id is its key. -/
structure BookingSeatRecord where
  bookingId : Nat
  seatId : Nat
  deriving DecidableEq, Repr

/-- The tables of the engine. -/
structure Db where
  events : OTable EventRecord
  seats : OTable SeatRecord
  bookings : OTable BookingRecord
  bookingSeats : OTable BookingSeatRecord

/-! ## The environment -/

/-- How a table call ends. -/
inductive Storage where
  | ok
  /-- It returns an error and leaves some contents behind. -/
  | error (db : Db) (rc : { r : EtpResult // r ≠ .ok })
  /-- An insertion after the id counter has wrapped: it may come back with any id. -/
  | reused (db : Db) (id : Nat)
  /-- A scan that could not read every page. -/
  | scanned (rows : List BookingSeatRecord)

/-- What a step finds outside the engine. -/
structure Env where
  now : Int
  storage : Storage
  lockAlloc : Bool
  logged : Bool
  flushed : Bool

/-- Storage and log do not fail; memory may. -/
def Env.StorageFine (env : Env) : Prop :=
  env.storage = .ok ∧ env.logged = true ∧ env.flushed = true

/-- Nothing fails. -/
def Env.Fine (env : Env) : Prop :=
  env.storage = .ok ∧ env.lockAlloc = true ∧ env.logged = true ∧ env.flushed = true

/-- An environment in which nothing fails. -/
def Env.fine (now : Int) : Env := ⟨now, .ok, true, true, true⟩

section TableCalls

variable {α : Type}

/-- `table_find_by_id`. -/
def tableFindById (table : OTable α) (id : Nat) (db : Db) (env : Env) :
    Option (Db × Except EtpResult α) :=
  match env.storage with
  | .ok => some (db, (table.get? id).elim (.error .errNotFound) .ok)
  | .error db' rc => some (db', .error rc)
  | _ => none

/-- `table_insert`; `store` puts the changed table back. -/
def tableInsert (table : OTable α) (store : OTable α → Db) (a : α) (env : Env) :
    Option (Db × Except EtpResult Nat) :=
  match env.storage with
  | .ok => if table.nextId < 2 ^ 32 then some (store (table.insert a), .ok table.nextId) else none
  | .error db' rc => some (db', .error rc)
  | .reused db' id => some (db', .ok id)
  | .scanned _ => none

/-- `table_update`. -/
def tableUpdate (table : OTable α) (store : OTable α → Db) (id : Nat) (a : α) (db : Db)
    (env : Env) : Option (Db × Except EtpResult Unit) :=
  match env.storage with
  | .ok =>
    some ((table.get? id).elim (db, .error .errNotFound) (fun _ => (store (table.update id a), .ok ())))
  | .error db' rc => some (db', .error rc)
  | _ => none

/-- `table_scan`. -/
def tableScan (table : OTable BookingSeatRecord) (filter : BookingSeatRecord → Bool) (max : Nat)
    (env : Env) : Option (List BookingSeatRecord) :=
  match env.storage with
  | .ok => some ((table.scan filter max).map Prod.snd)
  | .scanned rows => some (rows.take max)
  | _ => none

end TableCalls

/-! ## Calls and program points -/

/-- One call with its arguments. -/
inductive Call where
  | book (userId eventId : Nat) (seatIds : List Nat)
  | cancel (bookingId userId : Nat)
  deriving DecidableEq, Repr

/-- The caller. -/
def Call.userId : Call → Nat
  | .book userId _ _ => userId
  | .cancel _ userId => userId

/-- The event to book, `0` for a cancellation. -/
def Call.eventId : Call → Nat
  | .book _ eventId _ => eventId
  | .cancel _ _ => 0

/-- The booking to cancel, `0` for a booking. -/
def Call.bookingId : Call → Nat
  | .book _ _ _ => 0
  | .cancel bookingId _ => bookingId

/-- The seat array as passed in. -/
def Call.seatIds : Call → List Nat
  | .book _ _ seatIds => seatIds
  | .cancel _ _ => []

/-- The seat array after the sort that fixes the lock order. -/
def Call.seats (c : Call) : List Nat := exchangeSort (fun s => s) c.seatIds

/-- The argument checks: one to `MAX_SEATS_PER_BOOKING` seats, none of them 0, all different. -/
def Call.validSeats (c : Call) : Bool :=
  c.seatIds != [] && decide (c.seatIds.length ≤ MAX_SEATS_PER_BOOKING) &&
    !c.seatIds.contains 0 && decide c.seatIds.Nodup

/-- The stages of `txn_lock`. -/
inductive LockStage where
  | check
  | acquire
  | register
  deriving DecidableEq, Repr

/-- The three `txn_lock` calls. -/
inductive LockSite where
  | bookSeat (evt : EventRecord) (i : Nat)
  | cancelBooking
  | cancelSeat (booking : BookingRecord) (rows : List BookingSeatRecord) (i : Nat)

/-- The record a `txn_lock` call is about. -/
def lockKey (c : Call) : LockSite → LockKey
  | .bookSeat _ i => ⟨.seats, c.seats.getD i 0⟩
  | .cancelBooking => ⟨.bookings, c.bookingId⟩
  | .cancelSeat _ rows i => ⟨.seats, (rows.map BookingSeatRecord.seatId).getD i 0⟩

/-- The table calls inside a transaction. -/
inductive TableStep where
  | bookVerify (evt : EventRecord) (i : Nat)
  | bookInsert (evt : EventRecord)
  | bookJunction (bookingId i : Nat)
  | bookFindSeat (bookingId i : Nat)
  | bookUpdateSeat (bookingId i : Nat) (seat : SeatRecord)
  | cancelFind
  | cancelScan (booking : BookingRecord)
  | cancelFindSeat (booking : BookingRecord) (rows : List BookingSeatRecord) (i : Nat)
  | cancelUpdateSeat (booking : BookingRecord) (rows : List BookingSeatRecord) (i : Nat)
      (seat : SeatRecord)
  | cancelUpdateBooking (booking : BookingRecord) (rows : List BookingSeatRecord)

/-- Where a call stands. -/
inductive Pc where
  /-- Argument checks and the lookup of the event. -/
  | bookStart
  /-- `txn_begin`, of a booking for `some evt`, of a cancellation for `none`. -/
  | begin (evt : Option EventRecord)
  | lock (stage : LockStage) (txn : UInt32) (site : LockSite)
  | table (txn : UInt32) (ts : TableStep)
  | commit (txn : UInt32) (out : Option Nat)
  /-- `txn_abort`, then return `rc`. -/
  | abort (txn : UInt32) (rc : EtpResult)
  /-- `txn_lock` gives back a lock whose transaction has ended meanwhile. -/
  | orphan (txn : UInt32) (key : LockKey)
  /-- The unlock loop of `txn_commit` or `txn_abort`, then return `rc`. -/
  | release (locks : List LockKey) (rc : EtpResult) (out : Option Nat)

/-- Where control goes: on, or back to the caller with a result and `*out_booking_id`. -/
inductive Next where
  | goto (pc : Pc)
  | ret (rc : EtpResult) (out : Option Nat)

/-- The first program point of a call. -/
def Call.entry : Call → Pc
  | .book _ _ _ => .bookStart
  | .cancel _ _ => .begin none

/-! ## Loop heads -/

/-- The verification loop of `booking_book_seats`. -/
def bookVerifyLoop (c : Call) (evt : EventRecord) (txn : UInt32) (i : Nat) : Pc :=
  if i < c.seats.length then .table txn (.bookVerify evt i) else .table txn (.bookInsert evt)

/-- The lock loop of `booking_book_seats`. -/
def bookLockLoop (c : Call) (evt : EventRecord) (txn : UInt32) (i : Nat) : Pc :=
  if i < c.seats.length then .lock .check txn (.bookSeat evt i) else bookVerifyLoop c evt txn 0

/-- The loop that writes junction records and seats. -/
def bookSeatLoop (c : Call) (txn : UInt32) (bookingId i : Nat) : Pc :=
  if i < c.seats.length then .table txn (.bookJunction bookingId i)
  else .commit txn (some bookingId)

/-- The loop of `booking_cancel` over the scanned junction records. -/
def cancelSeatLoop (txn : UInt32) (booking : BookingRecord) (rows : List BookingSeatRecord)
    (i : Nat) : Pc :=
  if i < rows.length then .lock .check txn (.cancelSeat booking rows i)
  else .table txn (.cancelUpdateBooking booking rows)

/-- What follows a successful `txn_lock`. -/
def afterLock (c : Call) (txn : UInt32) : LockSite → Pc
  | .bookSeat evt i => bookLockLoop c evt txn (i + 1)
  | .cancelBooking => .table txn .cancelFind
  | .cancelSeat booking rows i => .table txn (.cancelFindSeat booking rows i)

/-- What follows `txn_begin`. -/
def afterBegin (c : Call) (txn : UInt32) : Option EventRecord → Pc
  | some evt => bookLockLoop c evt txn 0
  | none => .lock .check txn .cancelBooking

/-! ## One step of a call -/

/-- A table call inside transaction `txn` and the local code up to the next step. -/
def tableStep (c : Call) (env : Env) (db : Db) (txn : UInt32) : TableStep → Option (Db × Pc)
  | .bookVerify evt i =>
    (tableFindById db.seats (c.seats.getD i 0) db env).map fun r =>
      (r.1, match r.2 with
        | .error _ => .abort txn .errNotFound
        | .ok seat =>
          if seat.eventId ≠ c.eventId then .abort txn .errInvalidArg
          else if seat.status ≠ .available then .abort txn .errSeatUnavail
          else bookVerifyLoop c evt txn (i + 1))
  | .bookInsert evt =>
    let booking : BookingRecord :=
      { userId := c.userId, eventId := c.eventId, seatCount := c.seats.length,
        totalAmount := evt.price * Float32.ofNat c.seats.length, status := .confirmed,
        bookedAt := env.now }
    (tableInsert db.bookings (fun t => { db with bookings := t }) booking env).map fun r =>
      (r.1, match r.2 with
        | .error rc => .abort txn rc
        | .ok bookingId => bookSeatLoop c txn bookingId 0)
  | .bookJunction bookingId i =>
    (tableInsert db.bookingSeats (fun t => { db with bookingSeats := t })
        ⟨bookingId, c.seats.getD i 0⟩ env).map fun r =>
      (r.1, match r.2 with
        | .error rc => .abort txn rc
        | .ok _ => .table txn (.bookFindSeat bookingId i))
  | .bookFindSeat bookingId i =>
    (tableFindById db.seats (c.seats.getD i 0) db env).map fun r =>
      (r.1, match r.2 with
        | .error rc => .abort txn rc
        | .ok seat => .table txn (.bookUpdateSeat bookingId i seat))
  | .bookUpdateSeat bookingId i seat =>
    (tableUpdate db.seats (fun t => { db with seats := t }) (c.seats.getD i 0)
        { seat with status := .booked, bookedBy := c.userId } db env).map fun r =>
      (r.1, match r.2 with
        | .error rc => .abort txn rc
        | .ok () => bookSeatLoop c txn bookingId (i + 1))
  | .cancelFind =>
    (tableFindById db.bookings c.bookingId db env).map fun r =>
      (r.1, match r.2 with
        | .error _ => .abort txn .errNotFound
        | .ok booking =>
          if booking.userId ≠ c.userId then .abort txn .errAuth
          else if booking.status ≠ .confirmed then .abort txn .errGeneric
          else .table txn (.cancelScan booking))
  | .cancelScan booking =>
    (tableScan db.bookingSeats (fun r => r.bookingId == c.bookingId) MAX_SEATS_PER_BOOKING env).map
      fun rows => (db, cancelSeatLoop txn booking (exchangeSort BookingSeatRecord.seatId rows) 0)
  | .cancelFindSeat booking rows i =>
    (tableFindById db.seats ((rows.map BookingSeatRecord.seatId).getD i 0) db env).map fun r =>
      (r.1, match r.2 with
        -- a seat that is gone is skipped
        | .error _ => cancelSeatLoop txn booking rows (i + 1)
        | .ok seat => .table txn (.cancelUpdateSeat booking rows i seat))
  | .cancelUpdateSeat booking rows i seat =>
    (tableUpdate db.seats (fun t => { db with seats := t })
        ((rows.map BookingSeatRecord.seatId).getD i 0)
        { seat with status := .available, bookedBy := 0 } db env).map fun r =>
      (r.1, match r.2 with
        | .error _ => .abort txn .errIo
        | .ok () => cancelSeatLoop txn booking rows (i + 1))
  | .cancelUpdateBooking booking _ =>
    (tableUpdate db.bookings (fun t => { db with bookings := t }) c.bookingId
        { booking with status := .cancelled } db env).map fun r =>
      (r.1, match r.2 with
        | .error _ => .abort txn .errIo
        | .ok () => .commit txn none)

/-- The argument checks and the lookup of the event. -/
def bookStart (c : Call) (env : Env) (db : Db) : Option (Db × Next) :=
  if c.validSeats then
    (tableFindById db.events c.eventId db env).map fun r =>
      (r.1, match r.2 with
        | .error _ => .ret .errNotFound none
        | .ok evt => if evt.status ≠ .active then .ret .errGeneric none else .goto (.begin (some evt)))
  else some (db, .ret .errInvalidArg none)

/-- What the calls share. -/
structure Shared where
  db : Db
  locks : LockManager
  tm : TxnManager

/-- One step of a call; `none` while it has to wait. -/
def pcStep (c : Call) (env : Env) (s : Shared) : Pc → Option (Shared × Next)
  | .bookStart => (bookStart c env s.db).map fun r => ({ s with db := r.1 }, r.2)
  | .begin evt =>
    let r := txnBegin s.tm
    if r.1 = INVALID_TXN_ID then some (s, .ret .errGeneric none)
    else some ({ s with tm := r.2 }, .goto (afterBegin c r.1 evt))
  | .lock .check txn site =>
    match txnLockCheck s.tm txn (lockKey c site) with
    | .refused => some (s, .goto (.abort txn .errGeneric))
    | .held => some (s, .goto (afterLock c txn site))
    | .acquire => some (s, .goto (.lock .acquire txn site))
  | .lock .acquire txn site =>
    (lockMgrLock s.locks (lockKey c site) .exclusive).map fun locks =>
      -- `create_entry` may run out of memory
      if env.lockAlloc then ({ s with locks := locks }, .goto (.lock .register txn site))
      else (s, .goto (.abort txn .errGeneric))
  | .lock .register txn site =>
    match txnLockRegister s.tm txn (lockKey c site) with
    | some tm => some ({ s with tm := tm }, .goto (afterLock c txn site))
    | none => some (s, .goto (.orphan txn (lockKey c site)))
  | .table txn ts => (tableStep c env s.db txn ts).map fun r => ({ s with db := r.1 }, .goto r.2)
  | .commit txn out =>
    let r := txnCommitSection s.tm txn env.logged env.flushed
    match r.1 with
    | .refused => some (s, .ret .errIo none)
    | .failed => some (s, .goto (.abort txn .errIo))
    | .committed locks => some ({ s with tm := r.2 }, .goto (.release locks .ok out))
  | .abort txn rc =>
    let r := txnAbortSection s.tm txn
    match r.1 with
    | none => some (s, .ret rc none)
    | some locks => some ({ s with tm := r.2 }, .goto (.release locks rc none))
  | .orphan txn key =>
    some ({ s with locks := (lockMgrUnlock s.locks key).2 }, .goto (.abort txn .errGeneric))
  | .release [] rc out => some (s, .ret rc out)
  | .release (key :: locks) rc out =>
    some ({ s with locks := (lockMgrUnlock s.locks key).2 }, .goto (.release locks rc out))

/-! ## The system -/

/-- A call that has not been made, is running, or has returned. -/
inductive Proc where
  | idle
  | running (c : Call) (pc : Pc)
  | done (c : Call) (rc : EtpResult) (out : Option Nat)

/-- The shared state and every call. -/
structure World extends Shared where
  procs : Nat → Proc

/-- Who moves. -/
inductive Action where
  | start (i : Nat) (c : Call)
  | run (i : Nat) (env : Env)

/-- The call after control went to `next`. -/
def Next.proc (c : Call) : Next → Proc
  | .goto pc => .running c pc
  | .ret rc out => .done c rc out

/-- Where the calls stand after one of them moved. -/
theorem running_update {procs : Nat → Proc} {i j : Nat} {c d : Call} {next : Next} {q : Pc} :
    Function.update procs i (next.proc c) j = .running d q ↔
      (j = i ∧ d = c ∧ next = .goto q) ∨ (j ≠ i ∧ procs j = .running d q) := by
  by_cases hji : j = i
  · subst hji
    cases next with
    | ret rc out => simp [Next.proc]
    | goto pc => simp [Next.proc, eq_comm]
  · simp [hji]

/-- One step of the system. -/
def step (w : World) : Action → Option World
  | .start i c =>
    match w.procs i with
    | .idle => some { w with procs := Function.update w.procs i (.running c c.entry) }
    | _ => none
  | .run i env =>
    match w.procs i with
    | .running c pc =>
      (pcStep c env w.toShared pc).map fun r =>
        { toShared := r.1, procs := Function.update w.procs i (r.2.proc c) }
    | _ => none

/-- A system at rest over a database: no call, no transaction, no lock. -/
def World.init (db : Db) : World := ⟨⟨db, lockMgrCreate, txnMgrCreate⟩, fun _ => .idle⟩

/-- The call is under way. -/
def World.Unfinished (w : World) (i : Nat) : Prop := ∃ c pc, w.procs i = .running c pc

/-- The call sleeps in `lock_mgr_lock`. -/
def World.Blocked (w : World) (i : Nat) : Prop :=
  ∃ c txn site, w.procs i = .running c (.lock .acquire txn site) ∧
    lockMgrLock w.locks (lockKey c site) .exclusive = none

/-- No call is under way. -/
def World.Quiescent (w : World) : Prop := ∀ i, ¬ w.Unfinished i

/-- A transaction that begins gets an id that no active transaction has. -/
def FreshTxn (w : World) : Action → Prop
  | .start _ _ => True
  | .run i _ => ∀ c evt, w.procs i = .running c (.begin evt) →
      (txnBegin w.tm).1 ≠ INVALID_TXN_ID → ¬ w.tm.Active (txnBegin w.tm).1

/-- Storage and log succeed in this step. -/
def StorageFine : Action → Prop
  | .start _ _ => True
  | .run _ env => env.StorageFine

/-- `create_entry` finds memory for every lock that a cancellation asks for after it has released a
seat. -/
def CancelLocks (procs : Nat → Proc) : Action → Prop
  | .start _ _ => True
  | .run i env => ∀ c txn booking rows k,
      procs i = .running c (.lock .acquire txn (.cancelSeat booking rows k)) → 0 < k →
        env.lockAlloc = true

/-- Storage, log and allocation succeed in this step. -/
def NoFault : Action → Prop
  | .start _ _ => True
  | .run _ env => env.Fine

/-- Nothing fails and transaction ids do not collide. -/
def Orderly (w : World) (a : Action) : Prop := NoFault a ∧ FreshTxn w a

/-- Storage and log succeed, transaction ids do not collide, and no cancellation stops half way for
want of a lock entry. -/
structure Steady (w : World) (a : Action) : Prop where
  storage : StorageFine a
  fresh : FreshTxn w a
  locks : CancelLocks w.procs a

/-! ## Checking runs -/

/-- `Env.Fine`, to be evaluated. -/
def Env.isFine (env : Env) : Bool :=
  match env.storage with
  | .ok => env.lockAlloc && env.logged && env.flushed
  | _ => false

/-- `NoFault`, to be evaluated. -/
def Action.isFine : Action → Bool
  | .start _ _ => true
  | .run _ env => env.isFine

/-- `FreshTxn`, to be evaluated. -/
def World.isFresh (w : World) : Action → Bool
  | .start _ _ => true
  | .run i _ =>
    match w.procs i with
    | .running _ (.begin _) => (findTxnLocked w.tm (txnBegin w.tm).1).isNone
    | _ => true

theorem noFault_of_isFine {a : Action} (h : a.isFine = true) : NoFault a := by
  cases a with
  | start i c => trivial
  | run i env =>
    simp only [Action.isFine, Env.isFine] at h
    split at h
    · rename_i hs
      simp only [Bool.and_eq_true] at h
      exact ⟨hs, h.1.1, h.1.2, h.2⟩
    · cases h

theorem freshTxn_of_isFresh {w : World} {a : Action} (h : w.isFresh a = true) : FreshTxn w a := by
  cases a with
  | start i c => trivial
  | run i env =>
    intro c evt hp _
    simp only [World.isFresh, hp, Option.isNone_iff_eq_none] at h
    exact findTxnLocked_none h

/-- One active event with two free seats and no booking. -/
def smallDb : Db where
  events := (OTable.empty 1).insert ⟨.active, 0⟩
  seats := ((OTable.empty 1).insert ⟨1, 65, 1, .available, 0⟩).insert ⟨1, 65, 2, .available, 0⟩
  bookings := OTable.empty 1
  bookingSeats := OTable.empty 1

theorem smallDb_available (t : Nat) (seat : SeatRecord) (hg : smallDb.seats.get? t = some seat) :
    seat.status = .available := by
  have hall : ∀ r ∈ smallDb.seats.rows, r.2.status = .available := by decide
  exact hall _ (OTable.mem_iff.mpr hg)

/-- `n` steps of one call in which nothing fails. -/
def runs (i n : Nat) : List Action := List.replicate n (.run i (Env.fine 0))

/-- A check for `Orderly`. -/
def World.isOrderly (w : World) (a : Action) : Bool := a.isFine && w.isFresh a

theorem orderly_of_isOrderly (w : World) (a : Action) (h : w.isOrderly a = true) : Orderly w a := by
  rw [World.isOrderly, Bool.and_eq_true] at h
  exact ⟨noFault_of_isFine h.1, freshTxn_of_isFresh h.2⟩

/-- `StorageFine`, to be evaluated. -/
def Action.isStorageFine : Action → Bool
  | .start _ _ => true
  | .run _ env =>
    match env.storage with
    | .ok => env.logged && env.flushed
    | _ => false

/-- `CancelLocks`, to be evaluated. -/
def World.locksCancel (w : World) : Action → Bool
  | .start _ _ => true
  | .run i env =>
    match w.procs i with
    | .running _ (.lock .acquire _ (.cancelSeat _ _ k)) => k == 0 || env.lockAlloc
    | _ => true

/-- `Steady`, to be evaluated. -/
def World.isSteady (w : World) (a : Action) : Bool :=
  a.isStorageFine && (w.isFresh a && w.locksCancel a)

theorem storageFine_of_isStorageFine {a : Action} (h : a.isStorageFine = true) : StorageFine a := by
  cases a with
  | start i c => trivial
  | run i env =>
    simp only [Action.isStorageFine] at h
    split at h
    · rename_i hs
      rw [Bool.and_eq_true] at h
      exact ⟨hs, h.1, h.2⟩
    · cases h

theorem steady_of_isSteady (w : World) (a : Action) (h : w.isSteady a = true) : Steady w a := by
  rw [World.isSteady, Bool.and_eq_true, Bool.and_eq_true] at h
  refine ⟨storageFine_of_isStorageFine h.1, freshTxn_of_isFresh h.2.1, ?_⟩
  cases a with
  | start i c => trivial
  | run i env =>
    intro c txn booking rows k hp hk
    have hlocks := h.2.2
    simp only [World.locksCancel, hp, Bool.or_eq_true, beq_iff_eq] at hlocks
    rcases hlocks with rfl | hlocks
    · exact absurd hk (Nat.lt_irrefl 0)
    · exact hlocks

/-- A step that finds no memory for a lock entry. -/
def starved (i : Nat) : Action := .run i { Env.fine 0 with lockAlloc := false }

/-- Who moves. -/
def Action.proc : Action → Nat
  | .start i _ => i
  | .run i _ => i

/-- The call has returned. -/
def World.isDone (w : World) (i : Nat) : Bool :=
  match w.procs i with
  | .done _ _ _ => true
  | _ => false

/-- The first `n` calls have returned. -/
def World.allDone (w : World) (n : Nat) : Bool := (List.range n).all w.isDone

/-- The call sleeps in `lock_mgr_lock`, to be evaluated. -/
def World.isBlocked (w : World) (i : Nat) : Bool :=
  match w.procs i with
  | .running c (.lock .acquire _ site) => (lockMgrLock w.locks (lockKey c site) .exclusive).isNone
  | _ => false

theorem blocked_of_isBlocked {w : World} {i : Nat} (h : w.isBlocked i = true) : w.Blocked i := by
  unfold World.isBlocked at h
  split at h
  · rename_i c txn site hp
    exact ⟨c, txn, site, hp, by simpa using h⟩
  · cases h

theorem step_procs {w w' : World} {a : Action} (h : step w a = some w') {j : Nat}
    (hj : a.proc ≠ j) : w'.procs j = w.procs j := by
  cases a with
  | start i c =>
    simp only [step] at h
    split at h
    · cases h
      exact Function.update_of_ne (fun hij => hj hij.symm) _ _
    · cases h
  | run i env =>
    simp only [step] at h
    split at h
    · obtain ⟨r, -, rfl⟩ := Option.map_eq_some_iff.mp h
      exact Function.update_of_ne (fun hij => hj hij.symm) _ _
    · cases h

theorem runSteps_procs {check : World → Action → Bool} {as : List Action} {w w' : World}
    (h : runSteps step check w as = some w') {j : Nat} (hj : ∀ a ∈ as, a.proc ≠ j) :
    w'.procs j = w.procs j := by
  induction as generalizing w with
  | nil =>
    cases h
    rfl
  | cons a as ih =>
    simp only [runSteps] at h
    split at h
    · obtain ⟨t, ht, hrest⟩ := Option.bind_eq_some_iff.mp h
      rw [ih hrest (fun b hb => hj b (List.mem_cons_of_mem _ hb)),
        step_procs ht (hj a List.mem_cons_self)]
    · cases h

/-- A checked run from rest whose calls have all returned ends at rest. -/
theorem quiescent_of_runSteps {check : World → Action → Bool} {as : List Action} {db : Db}
    {w : World} (h : runSteps step check (World.init db) as = some w) (n : Nat)
    (hn : ∀ a ∈ as, a.proc < n) (hdone : w.allDone n = true) : w.Quiescent := by
  rintro i ⟨c, pc, hp⟩
  by_cases hi : i < n
  · have hd := List.all_eq_true.mp hdone i (List.mem_range.mpr hi)
    simp only [World.isDone, hp] at hd
    cases hd
  · have hne : ∀ a ∈ as, a.proc ≠ i := by
      rintro a ha rfl
      exact hi (hn a ha)
    rw [runSteps_procs h hne] at hp
    cases hp

end Ticketing
