import Ticketing.Core.BookingDeadlock

/-!
# What a call knows where it stands

Rely and guarantee for the booking engine when nothing fails.  A call may rely on the records it has
locked; in return it changes only those, apart from records it inserts under fresh ids.

* `TableEffect`, `tableStep_effect` — every outcome of a table call, said once.
* `CallOk` — what holds of the tables at each program point, for a call that owns `own`.
* `Keeps`, `CallOk.stable` — what a step of one call leaves alone, and that the others' knowledge
  survives it.
* `BookInv`, `bookInv_step` — every call knows what it should, in every state of a fault-free run.
-/

set_option autoImplicit false

namespace Ticketing

/-! ## Views of the tables -/

/-- The seats of the junction records of a booking. -/
def Db.rowsOf (db : Db) (b : Nat) : List Nat :=
  (db.bookingSeats.rows.filter (fun r => r.2.bookingId == b)).map (fun r => r.2.seatId)

/-- The seat exists in the event and is free. -/
def Db.SeatAvailable (db : Db) (event s : Nat) : Prop :=
  ∃ seat, db.seats.get? s = some seat ∧ seat.eventId = event ∧ seat.status = .available

/-- What the verification loop makes of a seat: the error it returns, if any. -/
def Db.seatCheck (db : Db) (event s : Nat) : Option EtpResult :=
  match db.seats.get? s with
  | none => some .errNotFound
  | some seat =>
    if seat.eventId ≠ event then some .errInvalidArg
    else if seat.status ≠ .available then some .errSeatUnavail
    else none

theorem Db.seatCheck_eq_none {db : Db} {event s : Nat} :
    db.seatCheck event s = none ↔ db.SeatAvailable event s := by
  unfold Db.seatCheck Db.SeatAvailable
  cases db.seats.get? s with
  | none => simp
  | some seat =>
    by_cases he : seat.eventId = event <;> by_cases ha : seat.status = .available <;> simp [he, ha]

/-- The seat is booked, by this user. -/
def Db.SeatBooked (db : Db) (user s : Nat) : Prop :=
  ∃ seat, db.seats.get? s = some seat ∧ seat.status = .booked ∧ seat.bookedBy = user

/-- The booking is confirmed. -/
def Db.Confirmed (db : Db) (b : Nat) : Prop :=
  ∃ r, db.bookings.get? b = some r ∧ r.status = .confirmed

/-- `Confirmed`, to be evaluated. -/
def Db.isConfirmed (db : Db) (b : Nat) : Bool :=
  (db.bookings.get? b).any (fun r => r.status == .confirmed)

theorem confirmed_of_isConfirmed {db : Db} {b : Nat} (h : db.isConfirmed b = true) :
    db.Confirmed b := by
  obtain ⟨r, hr, hc⟩ := (Option.any_eq_true _ _).mp h
  exact ⟨r, hr, by simpa using hc⟩

theorem rowsOf_insert (db : Db) (r : BookingSeatRecord) (b : Nat) :
    ({ db with bookingSeats := db.bookingSeats.insert r } : Db).rowsOf b =
      if r.bookingId = b then db.rowsOf b ++ [r.seatId] else db.rowsOf b := by
  unfold Db.rowsOf
  rw [OTable.rows_insert, List.filter_append, List.map_append]
  by_cases h : r.bookingId = b <;> simp [h]

/-! ## The outcomes of a table call -/

/-- The `i`-th seat of a sorted array. -/
def seatAt (l : List Nat) (i : Nat) : Nat := l.getD i 0

/-- The booking record `booking_book_seats` inserts. -/
def newBooking (c : Call) (evt : EventRecord) (now : Int) : BookingRecord :=
  { userId := c.userId, eventId := c.eventId, seatCount := c.seats.length,
    totalAmount := evt.price * Float32.ofNat c.seats.length, status := .confirmed, bookedAt := now }

/-- Every outcome of a table call when nothing fails. -/
inductive TableEffect (c : Call) (env : Env) (db : Db) (txn : UInt32) :
    TableStep → Db → Pc → Prop where
  | verifyAbort {evt : EventRecord} {i : Nat} {rc : EtpResult} :
      db.seatCheck c.eventId (seatAt c.seats i) = some rc →
      TableEffect c env db txn (.bookVerify evt i) db (.abort txn rc)
  | verified {evt : EventRecord} {i : Nat} : db.SeatAvailable c.eventId (seatAt c.seats i) →
      TableEffect c env db txn (.bookVerify evt i) db (bookVerifyLoop c evt txn (i + 1))
  | inserted {evt : EventRecord} : db.bookings.nextId < 2 ^ 32 →
      TableEffect c env db txn (.bookInsert evt)
        { db with bookings := db.bookings.insert (newBooking c evt env.now) }
        (bookSeatLoop c txn db.bookings.nextId 0)
  | junction {b i : Nat} : db.bookingSeats.nextId < 2 ^ 32 →
      TableEffect c env db txn (.bookJunction b i)
        { db with bookingSeats := db.bookingSeats.insert ⟨b, seatAt c.seats i⟩ }
        (.table txn (.bookFindSeat b i))
  | seatGone {b i : Nat} {rc : EtpResult} : rc ≠ .ok →
      db.seats.get? (seatAt c.seats i) = none →
      TableEffect c env db txn (.bookFindSeat b i) db (.abort txn rc)
  | seatFound {b i : Nat} {seat : SeatRecord} : db.seats.get? (seatAt c.seats i) = some seat →
      TableEffect c env db txn (.bookFindSeat b i) db (.table txn (.bookUpdateSeat b i seat))
  | seatLost {b i : Nat} {seat : SeatRecord} {rc : EtpResult} : rc ≠ .ok →
      db.seats.get? (seatAt c.seats i) = none →
      TableEffect c env db txn (.bookUpdateSeat b i seat) db (.abort txn rc)
  | seatBooked {b i : Nat} {seat seat' : SeatRecord} :
      db.seats.get? (seatAt c.seats i) = some seat' →
      TableEffect c env db txn (.bookUpdateSeat b i seat)
        { db with seats := db.seats.update (seatAt c.seats i)
                    { seat with status := .booked, bookedBy := c.userId } }
        (bookSeatLoop c txn b (i + 1))
  | findAbort {rc : EtpResult} : rc ≠ .ok →
      TableEffect c env db txn .cancelFind db (.abort txn rc)
  | bookingFound {booking : BookingRecord} : db.bookings.get? c.bookingId = some booking →
      booking.userId = c.userId → booking.status = .confirmed →
      TableEffect c env db txn .cancelFind db (.table txn (.cancelScan booking))
  | scanned {booking : BookingRecord} :
      TableEffect c env db txn (.cancelScan booking) db
        (cancelSeatLoop txn booking (exchangeSort BookingSeatRecord.seatId
          ((db.bookingSeats.scan (fun r => r.bookingId == c.bookingId)
            MAX_SEATS_PER_BOOKING).map Prod.snd)) 0)
  | skipped {booking : BookingRecord} {rows : List BookingSeatRecord} {i : Nat} :
      db.seats.get? (seatAt (rows.map BookingSeatRecord.seatId) i) = none →
      TableEffect c env db txn (.cancelFindSeat booking rows i) db
        (cancelSeatLoop txn booking rows (i + 1))
  | toRelease {booking : BookingRecord} {rows : List BookingSeatRecord} {i : Nat}
      {seat : SeatRecord} :
      db.seats.get? (seatAt (rows.map BookingSeatRecord.seatId) i) = some seat →
      TableEffect c env db txn (.cancelFindSeat booking rows i) db
        (.table txn (.cancelUpdateSeat booking rows i seat))
  | releaseLost {booking : BookingRecord} {rows : List BookingSeatRecord} {i : Nat}
      {seat : SeatRecord} :
      db.seats.get? (seatAt (rows.map BookingSeatRecord.seatId) i) = none →
      TableEffect c env db txn (.cancelUpdateSeat booking rows i seat) db (.abort txn .errIo)
  | released {booking : BookingRecord} {rows : List BookingSeatRecord} {i : Nat}
      {seat seat' : SeatRecord} :
      db.seats.get? (seatAt (rows.map BookingSeatRecord.seatId) i) = some seat' →
      TableEffect c env db txn (.cancelUpdateSeat booking rows i seat)
        { db with seats := db.seats.update (seatAt (rows.map BookingSeatRecord.seatId) i)
                    { seat with status := .available, bookedBy := 0 } }
        (cancelSeatLoop txn booking rows (i + 1))
  | bookingLost {booking : BookingRecord} {rows : List BookingSeatRecord} :
      db.bookings.get? c.bookingId = none →
      TableEffect c env db txn (.cancelUpdateBooking booking rows) db (.abort txn .errIo)
  | cancelled {booking booking' : BookingRecord} {rows : List BookingSeatRecord} :
      db.bookings.get? c.bookingId = some booking' →
      TableEffect c env db txn (.cancelUpdateBooking booking rows)
        { db with bookings := db.bookings.update c.bookingId { booking with status := .cancelled } }
        (.commit txn none)

/-- A table call that does not fail has one of these outcomes. -/
theorem tableStep_effect {c : Call} {env : Env} (hst : env.storage = .ok) {db db' : Db} {txn : UInt32}
    {ts : TableStep} {pc : Pc} (h : tableStep c env db txn ts = some (db', pc)) :
    TableEffect c env db txn ts db' pc := by
  cases ts with
  | bookVerify evt i =>
    simp only [tableStep, tableFindById, hst, Option.map_some, Option.some.injEq,
      Prod.mk.injEq] at h
    obtain ⟨rfl, rfl⟩ := h
    cases hg : db.seats.get? (c.seats.getD i 0) with
    | none => exact .verifyAbort (by rw [Db.seatCheck, seatAt, hg])
    | some seat =>
      simp only [Option.elim_some]
      split
      · rename_i hne
        exact .verifyAbort (by rw [Db.seatCheck, seatAt, hg]; exact if_pos hne)
      · rename_i he
        split
        · rename_i hne
          exact .verifyAbort (by rw [Db.seatCheck, seatAt, hg]; simp [not_not.mp he, hne])
        · rename_i hav
          exact .verified ⟨seat, hg, not_not.mp he, not_not.mp hav⟩
  | bookInsert evt =>
    simp only [tableStep, tableInsert, hst] at h
    split at h
    · rename_i hroom
      simp only [Option.map_some, Option.some.injEq, Prod.mk.injEq] at h
      obtain ⟨rfl, rfl⟩ := h
      exact .inserted hroom
    · cases h
  | bookJunction b i =>
    simp only [tableStep, tableInsert, hst] at h
    split at h
    · rename_i hroom
      simp only [Option.map_some, Option.some.injEq, Prod.mk.injEq] at h
      obtain ⟨rfl, rfl⟩ := h
      exact .junction hroom
    · cases h
  | bookFindSeat b i =>
    simp only [tableStep, tableFindById, hst, Option.map_some, Option.some.injEq,
      Prod.mk.injEq] at h
    obtain ⟨rfl, rfl⟩ := h
    cases hg : db.seats.get? (c.seats.getD i 0) with
    | none => exact .seatGone (by decide) hg
    | some seat => exact .seatFound hg
  | bookUpdateSeat b i seat =>
    simp only [tableStep, tableUpdate, hst, Option.map_some, Option.some.injEq] at h
    cases hg : db.seats.get? (c.seats.getD i 0) with
    | none =>
      simp only [hg, Option.elim_none, Prod.mk.injEq] at h
      obtain ⟨rfl, rfl⟩ := h
      exact .seatLost (by decide) hg
    | some seat' =>
      simp only [hg, Option.elim_some, Prod.mk.injEq] at h
      obtain ⟨rfl, rfl⟩ := h
      exact .seatBooked hg
  | cancelFind =>
    simp only [tableStep, tableFindById, hst, Option.map_some, Option.some.injEq,
      Prod.mk.injEq] at h
    obtain ⟨rfl, rfl⟩ := h
    cases hg : db.bookings.get? c.bookingId with
    | none => exact .findAbort (by decide)
    | some booking =>
      simp only [Option.elim_some]
      split
      · exact .findAbort (by decide)
      · rename_i hu
        split
        · exact .findAbort (by decide)
        · rename_i hc
          exact .bookingFound hg (not_not.mp hu) (not_not.mp hc)
  | cancelScan booking =>
    simp only [tableStep, tableScan, hst, Option.map_some, Option.some.injEq,
      Prod.mk.injEq] at h
    obtain ⟨rfl, rfl⟩ := h
    exact .scanned
  | cancelFindSeat booking rows i =>
    simp only [tableStep, tableFindById, hst, Option.map_some, Option.some.injEq,
      Prod.mk.injEq] at h
    obtain ⟨rfl, rfl⟩ := h
    cases hg : db.seats.get? ((rows.map BookingSeatRecord.seatId).getD i 0) with
    | none => exact .skipped hg
    | some seat => exact .toRelease hg
  | cancelUpdateSeat booking rows i seat =>
    simp only [tableStep, tableUpdate, hst, Option.map_some, Option.some.injEq] at h
    cases hg : db.seats.get? ((rows.map BookingSeatRecord.seatId).getD i 0) with
    | none =>
      simp only [hg, Option.elim_none, Prod.mk.injEq] at h
      obtain ⟨rfl, rfl⟩ := h
      exact .releaseLost hg
    | some seat' =>
      simp only [hg, Option.elim_some, Prod.mk.injEq] at h
      obtain ⟨rfl, rfl⟩ := h
      exact .released hg
  | cancelUpdateBooking booking rows =>
    simp only [tableStep, tableUpdate, hst, Option.map_some, Option.some.injEq] at h
    cases hg : db.bookings.get? c.bookingId with
    | none =>
      simp only [hg, Option.elim_none, Prod.mk.injEq] at h
      obtain ⟨rfl, rfl⟩ := h
      exact .bookingLost hg
    | some booking' =>
      simp only [hg, Option.elim_some, Prod.mk.injEq] at h
      obtain ⟨rfl, rfl⟩ := h
      exact .cancelled hg

/-! ## What a step does to the tables -/

/-- The contents a failing table call, or an insertion under a reused id, leaves behind. -/
def Env.leaves (env : Env) : Option Db :=
  match env.storage with
  | .error db _ => some db
  | .reused db _ => some db
  | _ => none

section StepDb

variable {α : Type} {c : Call} {env : Env} {db : Db}

theorem tableFindById_storage {table : OTable α} {id : Nat} {r : Db × Except EtpResult α}
    (h : tableFindById table id db env = some r) :
    env.storage = .ok ∧ r.1 = db ∨ env.leaves = some r.1 := by
  unfold tableFindById at h
  split at h
  · rename_i hst
    cases h
    exact Or.inl ⟨hst, rfl⟩
  · rename_i db' rc hst
    cases h
    exact Or.inr (by simp only [Env.leaves, hst])
  · cases h

theorem tableInsert_storage {table : OTable α} {store : OTable α → Db} {a : α}
    {r : Db × Except EtpResult Nat} (h : tableInsert table store a env = some r) :
    env.storage = .ok ∨ env.leaves = some r.1 := by
  unfold tableInsert at h
  split at h
  · rename_i hst
    exact Or.inl hst
  · rename_i db' rc hst
    cases h
    exact Or.inr (by simp only [Env.leaves, hst])
  · rename_i db' id hst
    cases h
    exact Or.inr (by simp only [Env.leaves, hst])
  · cases h

theorem tableUpdate_storage {table : OTable α} {store : OTable α → Db} {id : Nat} {a : α}
    {r : Db × Except EtpResult Unit} (h : tableUpdate table store id a db env = some r) :
    env.storage = .ok ∨ env.leaves = some r.1 := by
  unfold tableUpdate at h
  split at h
  · rename_i hst
    exact Or.inl hst
  · rename_i db' rc hst
    cases h
    exact Or.inr (by simp only [Env.leaves, hst])
  · cases h

/-- A table call goes well, leaves behind what its failure leaves, or is a scan. -/
theorem tableStep_storage {db' : Db} {txn : UInt32} {ts : TableStep} {pc : Pc}
    (h : tableStep c env db txn ts = some (db', pc)) :
    env.storage = .ok ∨ env.leaves = some db' ∨ db' = db := by
  cases ts with
  | cancelScan booking =>
    obtain ⟨rows, -, hr⟩ := Option.map_eq_some_iff.mp h
    obtain ⟨rfl, -⟩ := Prod.mk.inj hr
    exact Or.inr (Or.inr rfl)
  | bookVerify evt i | bookFindSeat b i | cancelFind | cancelFindSeat booking rows i =>
    obtain ⟨r, hr, he⟩ := Option.map_eq_some_iff.mp h
    obtain ⟨rfl, -⟩ := Prod.mk.inj he
    obtain ⟨hst, -⟩ | hleft := tableFindById_storage hr
    · exact Or.inl hst
    · exact Or.inr (Or.inl hleft)
  | bookInsert evt | bookJunction b i =>
    obtain ⟨r, hr, he⟩ := Option.map_eq_some_iff.mp h
    obtain ⟨rfl, -⟩ := Prod.mk.inj he
    exact (tableInsert_storage hr).imp_right Or.inl
  | bookUpdateSeat b i seat | cancelUpdateSeat booking rows i seat
  | cancelUpdateBooking booking rows =>
    obtain ⟨r, hr, he⟩ := Option.map_eq_some_iff.mp h
    obtain ⟨rfl, -⟩ := Prod.mk.inj he
    exact (tableUpdate_storage hr).imp_right Or.inl

/-- The lookup of the event changes nothing unless it fails. -/
theorem bookStart_db {db' : Db} {next : Next} (h : bookStart c env db = some (db', next)) :
    db' = db ∨ env.leaves = some db' := by
  unfold bookStart at h
  split at h
  · obtain ⟨r, hr, he⟩ := Option.map_eq_some_iff.mp h
    obtain ⟨rfl, -⟩ := Prod.mk.inj he
    exact (tableFindById_storage hr).imp_left And.right
  · cases h
    exact Or.inl rfl

/-- Only the lookup of the event and the table calls touch the tables. -/
theorem pcStep_db {s s' : Shared} {pc : Pc} {next : Next}
    (h : pcStep c env s pc = some (s', next)) :
    s'.db = s.db ∨ (pc = .bookStart ∧ bookStart c env s.db = some (s'.db, next)) ∨
      ∃ txn ts pc', pc = .table txn ts ∧ tableStep c env s.db txn ts = some (s'.db, pc') := by
  cases pc with
  | bookStart =>
    obtain ⟨r, hr, he⟩ := Option.map_eq_some_iff.mp h
    obtain ⟨rfl, rfl⟩ := Prod.mk.inj he
    exact Or.inr (Or.inl ⟨rfl, hr⟩)
  | table txn ts =>
    obtain ⟨r, hr, he⟩ := Option.map_eq_some_iff.mp h
    obtain ⟨rfl, -⟩ := Prod.mk.inj he
    exact Or.inr (Or.inr ⟨txn, ts, r.2, rfl, hr⟩)
  | begin evt =>
    simp only [pcStep] at h
    split at h <;> cases h <;> exact Or.inl rfl
  | lock stage txn site =>
    cases stage with
    | check =>
      simp only [pcStep] at h
      split at h <;> cases h <;> exact Or.inl rfl
    | acquire =>
      obtain ⟨locks, -, he⟩ := Option.map_eq_some_iff.mp h
      split at he <;> cases he <;> exact Or.inl rfl
    | register =>
      simp only [pcStep] at h
      split at h <;> cases h <;> exact Or.inl rfl
  | commit txn out =>
    simp only [pcStep] at h
    split at h <;> cases h <;> exact Or.inl rfl
  | abort txn rc =>
    simp only [pcStep] at h
    split at h <;> cases h <;> exact Or.inl rfl
  | orphan txn key =>
    cases h
    exact Or.inl rfl
  | release locks rc out =>
    cases locks with
    | nil =>
      cases h
      exact Or.inl rfl
    | cons key locks =>
      cases h
      exact Or.inl rfl

end StepDb

/-! ## What a call knows -/

/-- The records of a booking in progress: `i` seats written, `n` junction records inserted. -/
structure Writing (db : Db) (own : List LockKey) (c : Call) (b i n : Nat) : Prop where
  valid : c.validSeats = true
  locked : ∀ s ∈ c.seats, seatKey s ∈ own
  written : ∀ s ∈ c.seats.take i, db.SeatBooked c.userId s
  pending : ∀ s ∈ c.seats.drop i, db.SeatAvailable c.eventId s
  rows : db.rowsOf b = c.seats.take n
  booking : ∃ r, db.bookings.get? b = some r ∧ r.userId = c.userId ∧ r.eventId = c.eventId ∧
    r.seatCount = c.seats.length

/-- The records of a cancellation in progress: `k` seats locked, `i` of them released. -/
structure Cancelling (db : Db) (own : List LockKey) (c : Call) (booking : BookingRecord)
    (rows : List BookingSeatRecord) (i k : Nat) : Prop where
  locked : bookingKey c.bookingId ∈ own
  found : db.bookings.get? c.bookingId = some booking
  confirmed : booking.status = .confirmed
  user : booking.userId = c.userId
  of_booking : ∀ s ∈ rows.map BookingSeatRecord.seatId, s ∈ db.rowsOf c.bookingId
  seats_locked : ∀ s ∈ (rows.map BookingSeatRecord.seatId).take k, seatKey s ∈ own
  released : ∀ s ∈ (rows.map BookingSeatRecord.seatId).take i, ∀ seat,
    db.seats.get? s = some seat → seat.status = .available
  released_locked : i ≤ k
  few : rows.length ≤ MAX_SEATS_PER_BOOKING

/-- What holds of the tables where a call stands. -/
def CallOk (db : Db) (own : List LockKey) (c : Call) : Pc → Prop
  | .begin (some _) => c.validSeats = true
  | .lock .register _ (.bookSeat _ i) =>
    c.validSeats = true ∧ i < c.seats.length ∧ ∀ s ∈ c.seats.take (i + 1), seatKey s ∈ own
  | .lock _ _ (.bookSeat _ i) =>
    c.validSeats = true ∧ i < c.seats.length ∧ ∀ s ∈ c.seats.take i, seatKey s ∈ own
  | .table _ (.bookVerify _ i) =>
    c.validSeats = true ∧ i < c.seats.length ∧ (∀ s ∈ c.seats, seatKey s ∈ own) ∧
      ∀ s ∈ c.seats.take i, db.SeatAvailable c.eventId s
  | .table _ (.bookInsert _) =>
    c.validSeats = true ∧ (∀ s ∈ c.seats, seatKey s ∈ own) ∧
      ∀ s ∈ c.seats, db.SeatAvailable c.eventId s
  | .table _ (.bookJunction b i) => i < c.seats.length ∧ Writing db own c b i i
  | .table _ (.bookFindSeat b i) => i < c.seats.length ∧ Writing db own c b i (i + 1)
  | .table _ (.bookUpdateSeat b i seat) =>
    i < c.seats.length ∧ Writing db own c b i (i + 1) ∧
      db.seats.get? (seatAt c.seats i) = some seat
  | .commit _ (some b) => Writing db own c b c.seats.length c.seats.length
  | .lock .register _ .cancelBooking => bookingKey c.bookingId ∈ own
  | .table _ .cancelFind => bookingKey c.bookingId ∈ own
  | .table _ (.cancelScan booking) => Cancelling db own c booking [] 0 0
  | .lock .register _ (.cancelSeat booking rows i) =>
    i < rows.length ∧ Cancelling db own c booking rows i (i + 1)
  | .lock _ _ (.cancelSeat booking rows i) =>
    i < rows.length ∧ Cancelling db own c booking rows i i
  | .table _ (.cancelFindSeat booking rows i) =>
    i < rows.length ∧ Cancelling db own c booking rows i (i + 1)
  | .table _ (.cancelUpdateSeat booking rows i seat) =>
    i < rows.length ∧ Cancelling db own c booking rows i (i + 1) ∧
      db.seats.get? (seatAt (rows.map BookingSeatRecord.seatId) i) = some seat
  | .table _ (.cancelUpdateBooking booking rows) =>
    Cancelling db own c booking rows rows.length rows.length
  | _ => True

/-- The booking a call is writing. -/
def Pc.writing : Pc → Option Nat
  | .table _ (.bookJunction b _) => some b
  | .table _ (.bookFindSeat b _) => some b
  | .table _ (.bookUpdateSeat b _ _) => some b
  | .commit _ (some b) => some b
  | _ => none

/-! ## Rely and guarantee -/

/-- What a step of a call that owns `own` leaves alone. -/
structure Keeps (own : List LockKey) (db db' : Db) : Prop where
  events : db'.events = db.events
  seats : ∀ s, seatKey s ∉ own → db'.seats.get? s = db.seats.get? s
  bookings : ∀ b, bookingKey b ∉ own → b < db.bookings.nextId →
    db'.bookings.get? b = db.bookings.get? b
  ident : ∀ b r, db.bookings.get? b = some r → ∃ r', db'.bookings.get? b = some r' ∧
    r'.userId = r.userId ∧ r'.eventId = r.eventId ∧ r'.seatCount = r.seatCount
  next : db.bookings.nextId ≤ db'.bookings.nextId
  rows : ∀ b s, s ∈ db.rowsOf b → s ∈ db'.rowsOf b

theorem Keeps.refl (own : List LockKey) (db : Db) : Keeps own db db :=
  ⟨rfl, fun _ _ => rfl, fun _ _ _ => rfl, fun _ r h => ⟨r, h, rfl, rfl, rfl⟩, Nat.le_refl _,
    fun _ _ h => h⟩

theorem SeatAvailable.congr {db db' : Db} {event s : Nat}
    (h : db'.seats.get? s = db.seats.get? s) (ha : db.SeatAvailable event s) :
    db'.SeatAvailable event s := by
  obtain ⟨seat, hs, hr⟩ := ha
  exact ⟨seat, by rw [h, hs], hr⟩

theorem SeatBooked.congr {db db' : Db} {user s : Nat} (h : db'.seats.get? s = db.seats.get? s)
    (ha : db.SeatBooked user s) : db'.SeatBooked user s := by
  obtain ⟨seat, hs, hr⟩ := ha
  exact ⟨seat, by rw [h, hs], hr⟩

section Stability

variable {db db' : Db} {own mine : List LockKey} {c : Call}

theorem Writing.stable {b i n : Nat} (h : Writing db own c b i n) (hk : Keeps mine db db')
    (hd : ∀ key ∈ own, key ∉ mine) (hrows : db'.rowsOf b = db.rowsOf b) :
    Writing db' own c b i n := by
  have hseat : ∀ s ∈ c.seats, db'.seats.get? s = db.seats.get? s :=
    fun s hs => hk.seats s (hd _ (h.locked s hs))
  refine ⟨h.valid, h.locked, ?_, ?_, by rw [hrows]; exact h.rows, ?_⟩
  · intro s hs
    exact SeatBooked.congr (hseat s (List.mem_of_mem_take hs)) (h.written s hs)
  · intro s hs
    exact SeatAvailable.congr (hseat s (List.mem_of_mem_drop hs)) (h.pending s hs)
  · obtain ⟨r, hr, hu, he, hc⟩ := h.booking
    obtain ⟨r', hr', hu', he', hc'⟩ := hk.ident b r hr
    exact ⟨r', hr', by rw [hu', hu], by rw [he', he], by rw [hc', hc]⟩

theorem Cancelling.stable {booking : BookingRecord} {rows : List BookingSeatRecord} {i k : Nat}
    (h : Cancelling db own c booking rows i k) (hk : Keeps mine db db')
    (hd : ∀ key ∈ own, key ∉ mine) : Cancelling db' own c booking rows i k := by
  refine ⟨h.locked, ?_, h.confirmed, h.user, fun s hs => hk.rows _ s (h.of_booking s hs),
    h.seats_locked, ?_, h.released_locked, h.few⟩
  · rw [hk.bookings _ (hd _ h.locked) (OTable.get?_lt h.found)]
    exact h.found
  · intro s hs seat hg
    have hown : seatKey s ∈ own := by
      refine h.seats_locked s ?_
      exact (List.take_subset_take_left _ h.released_locked) hs
    rw [hk.seats s (hd _ hown)] at hg
    exact h.released s hs seat hg

/-- What a call knows survives the steps of the others. -/
theorem CallOk.stable {pc : Pc} (h : CallOk db own c pc) (hk : Keeps mine db db')
    (hd : ∀ key ∈ own, key ∉ mine)
    (hrows : ∀ b, pc.writing = some b → db'.rowsOf b = db.rowsOf b) : CallOk db' own c pc := by
  have hseat : ∀ s, seatKey s ∈ own → db'.seats.get? s = db.seats.get? s :=
    fun s hs => hk.seats s (hd _ hs)
  cases pc with
  | bookStart => trivial
  | begin evt => cases evt <;> exact h
  | lock stage txn site =>
    cases site with
    | bookSeat evt i => cases stage <;> exact h
    | cancelBooking => cases stage <;> exact h
    | cancelSeat booking rows i =>
      cases stage <;> exact ⟨h.1, h.2.stable hk hd⟩
  | table txn ts =>
    cases ts with
    | bookVerify evt i =>
      obtain ⟨hv, hi, hl, ha⟩ := h
      refine ⟨hv, hi, hl, fun s hs => ?_⟩
      exact SeatAvailable.congr (hseat s (hl s (List.mem_of_mem_take hs))) (ha s hs)
    | bookInsert evt =>
      obtain ⟨hv, hl, ha⟩ := h
      exact ⟨hv, hl, fun s hs => SeatAvailable.congr (hseat s (hl s hs)) (ha s hs)⟩
    | bookJunction b i => exact ⟨h.1, h.2.stable hk hd (hrows b rfl)⟩
    | bookFindSeat b i => exact ⟨h.1, h.2.stable hk hd (hrows b rfl)⟩
    | bookUpdateSeat b i seat =>
      obtain ⟨hi, hw, hg⟩ := h
      refine ⟨hi, hw.stable hk hd (hrows b rfl), ?_⟩
      have hmem : seatAt c.seats i ∈ c.seats := by
        rw [seatAt, List.getD_eq_getElem?_getD, List.getElem?_eq_getElem hi]
        exact List.getElem_mem _
      rw [hseat _ (hw.locked _ hmem)]
      exact hg
    | cancelFind => exact h
    | cancelScan booking => exact Cancelling.stable h hk hd
    | cancelFindSeat booking rows i => exact ⟨h.1, h.2.stable hk hd⟩
    | cancelUpdateSeat booking rows i seat =>
      obtain ⟨hi, hw, hg⟩ := h
      refine ⟨hi, hw.stable hk hd, ?_⟩
      have hmem : seatAt (rows.map BookingSeatRecord.seatId) i ∈
          (rows.map BookingSeatRecord.seatId).take (i + 1) := by
        have hi' : i < (rows.map BookingSeatRecord.seatId).length := by simpa using hi
        rw [seatAt, List.getD_eq_getElem?_getD, List.getElem?_eq_getElem hi']
        rw [List.take_add_one, List.getElem?_eq_getElem hi']
        simp
      rw [hseat _ (hw.seats_locked _ hmem)]
      exact hg
    | cancelUpdateBooking booking rows => exact Cancelling.stable h hk hd
  | commit txn out =>
    cases out with
    | none => trivial
    | some b => exact Writing.stable h hk hd (hrows b rfl)
  | abort txn rc => trivial
  | orphan txn key => trivial
  | release keys rc out => trivial

end Stability

/-! ## The own step of a call -/

section OwnStep

variable {db db' : Db} {own own' : List LockKey} {c : Call} {env : Env} {txn : UInt32}

theorem seats_nodup (h : c.validSeats = true) : c.seats.Nodup := by
  simp only [Call.validSeats, Bool.and_eq_true, decide_eq_true_eq] at h
  exact (exchangeSort_perm _ _).nodup_iff.mpr h.2

theorem seats_length (h : c.validSeats = true) :
    0 < c.seats.length ∧ c.seats.length ≤ MAX_SEATS_PER_BOOKING := by
  simp only [Call.validSeats, Bool.and_eq_true, decide_eq_true_eq, bne_iff_ne] at h
  have hlen : c.seats.length = c.seatIds.length := (exchangeSort_perm _ _).length_eq
  rw [hlen]
  exact ⟨List.length_pos_iff.mpr h.1.1.1, h.1.1.2⟩

theorem take_succ_seatAt {l : List Nat} {i : Nat} (hi : i < l.length) :
    l.take (i + 1) = l.take i ++ [seatAt l i] := by
  rw [List.take_add_one, List.getElem?_eq_getElem hi, seatAt, List.getD_eq_getElem?_getD,
    List.getElem?_eq_getElem hi]
  rfl

theorem drop_seatAt {l : List Nat} {i : Nat} (hi : i < l.length) :
    l.drop i = seatAt l i :: l.drop (i + 1) := by
  rw [List.drop_eq_getElem_cons hi, seatAt, List.getD_eq_getElem?_getD,
    List.getElem?_eq_getElem hi]
  rfl

theorem seatAt_mem {l : List Nat} {i : Nat} (hi : i < l.length) : seatAt l i ∈ l := by
  have : seatAt l i ∈ l.drop i := by rw [drop_seatAt hi]; exact List.mem_cons_self
  exact List.mem_of_mem_drop this

/-- In a list without duplicates the `i`-th element differs from all others. -/
theorem ne_seatAt {l : List Nat} (hn : l.Nodup) {i : Nat} (hi : i < l.length) :
    (∀ s ∈ l.take i, s ≠ seatAt l i) ∧ ∀ s ∈ l.drop (i + 1), s ≠ seatAt l i := by
  have hsplit : l = l.take i ++ seatAt l i :: l.drop (i + 1) := by
    rw [← drop_seatAt hi, List.take_append_drop]
  rw [hsplit, List.nodup_append, List.nodup_cons] at hn
  refine ⟨fun s hs => hn.2.2 s hs _ List.mem_cons_self, ?_⟩
  rintro s hs rfl
  exact hn.2.1.1 hs

theorem bookVerifyLoop_ok {evt : EventRecord} {i : Nat} (hv : c.validSeats = true)
    (hl : ∀ s ∈ c.seats, seatKey s ∈ own)
    (ha : ∀ s ∈ c.seats.take i, db.SeatAvailable c.eventId s) :
    CallOk db own c (bookVerifyLoop c evt txn i) := by
  unfold bookVerifyLoop
  split
  · rename_i hi
    exact ⟨hv, hi, hl, ha⟩
  · rename_i hi
    rw [List.take_of_length_le (Nat.not_lt.mp hi)] at ha
    exact ⟨hv, hl, ha⟩

theorem bookLockLoop_ok {evt : EventRecord} {i : Nat} (hv : c.validSeats = true)
    (hl : ∀ s ∈ c.seats.take i, seatKey s ∈ own) :
    CallOk db own c (bookLockLoop c evt txn i) := by
  unfold bookLockLoop
  split
  · rename_i hi
    exact ⟨hv, hi, hl⟩
  · rename_i hi
    rw [List.take_of_length_le (Nat.not_lt.mp hi)] at hl
    exact bookVerifyLoop_ok hv hl (by simp)

theorem bookSeatLoop_ok {b i : Nat} (h : Writing db own c b i i) :
    CallOk db own c (bookSeatLoop c txn b i) := by
  unfold bookSeatLoop
  split
  · rename_i hi
    exact ⟨hi, h⟩
  · rename_i hi
    have hge := Nat.not_lt.mp hi
    refine ⟨h.valid, h.locked, ?_, by simp, ?_, h.booking⟩
    · have := h.written
      rwa [List.take_of_length_le hge, ← List.take_length (l := c.seats)] at this
    · rw [h.rows, List.take_of_length_le hge, List.take_length]

theorem cancelSeatLoop_ok {booking : BookingRecord} {rows : List BookingSeatRecord} {i : Nat}
    (h : Cancelling db own c booking rows i i) :
    CallOk db own c (cancelSeatLoop txn booking rows i) := by
  unfold cancelSeatLoop
  split
  · rename_i hi
    exact ⟨hi, h⟩
  · rename_i hi
    have hge : (rows.map BookingSeatRecord.seatId).length ≤ i := by
      simpa using Nat.not_lt.mp hi
    have htake : (rows.map BookingSeatRecord.seatId).take rows.length =
        (rows.map BookingSeatRecord.seatId).take i := by
      rw [List.take_of_length_le hge, List.take_of_length_le (by simp)]
    exact ⟨h.locked, h.found, h.confirmed, h.user, h.of_booking, by rw [htake]; exact h.seats_locked,
      by rw [htake]; exact h.released, Nat.le_refl _, h.few⟩

/-- The locks a cancellation gains. -/
theorem Cancelling.lock {booking : BookingRecord} {rows : List BookingSeatRecord} {i : Nat}
    (h : Cancelling db own c booking rows i i) (hi : i < rows.length) (hsub : own ⊆ own')
    (hkey : seatKey (seatAt (rows.map BookingSeatRecord.seatId) i) ∈ own') :
    Cancelling db own' c booking rows i (i + 1) := by
  refine ⟨hsub h.locked, h.found, h.confirmed, h.user, h.of_booking, ?_, h.released,
    Nat.le_succ i, h.few⟩
  intro s hs
  rw [take_succ_seatAt (by simpa using hi), List.mem_append, List.mem_singleton] at hs
  rcases hs with hs | rfl
  · exact hsub (h.seats_locked s hs)
  · exact hkey

/-- A table call leaves its caller knowing what the next point asks for. -/
theorem callOk_table {ts : TableStep} {pc : Pc} (h : CallOk db own c (.table txn ts))
    (hnew : db.rowsOf db.bookings.nextId = []) (he : TableEffect c env db txn ts db' pc) :
    CallOk db' own c pc := by
  cases he with
  | verifyAbort _ => trivial
  | @verified evt i ha =>
    obtain ⟨hv, hi, hl, hprev⟩ := h
    refine bookVerifyLoop_ok hv hl ?_
    intro s hs
    rw [take_succ_seatAt hi, List.mem_append, List.mem_singleton] at hs
    rcases hs with hs | rfl
    · exact hprev s hs
    · exact ha
  | @inserted evt _ =>
    obtain ⟨hv, hl, ha⟩ := h
    refine bookSeatLoop_ok ⟨hv, hl, by simp, ha, ?_, ?_⟩
    · exact hnew
    · exact ⟨_, OTable.get?_insert_self _ _, rfl, rfl, rfl⟩
  | @junction b i _ =>
    obtain ⟨hi, hw⟩ := h
    refine ⟨hi, hw.valid, hw.locked, hw.written, hw.pending, ?_, hw.booking⟩
    rw [rowsOf_insert, if_pos rfl, hw.rows, take_succ_seatAt hi]
  | seatGone _ _ => trivial
  | seatFound hg => exact ⟨h.1, h.2, hg⟩
  | seatLost _ _ => trivial
  | @seatBooked b i seat seat' hg' =>
    obtain ⟨hi, hw, hg⟩ := h
    have hne := ne_seatAt (seats_nodup hw.valid) hi
    refine bookSeatLoop_ok ⟨hw.valid, hw.locked, ?_, ?_, hw.rows, hw.booking⟩
    · intro s hs
      rw [take_succ_seatAt hi, List.mem_append, List.mem_singleton] at hs
      rcases hs with hs | rfl
      · exact SeatBooked.congr (OTable.get?_update_ne (hne.1 s hs)) (hw.written s hs)
      · exact ⟨_, OTable.get?_update_self hg', rfl, rfl⟩
    · intro s hs
      refine SeatAvailable.congr (OTable.get?_update_ne (hne.2 s hs)) (hw.pending s ?_)
      rw [drop_seatAt hi]
      exact List.mem_cons_of_mem _ hs
  | findAbort _ => trivial
  | bookingFound hg hu hc => 
    exact ⟨h, hg, hc, hu, by simp, by simp, by simp, Nat.le_refl 0, Nat.zero_le _⟩
  | @scanned booking =>
    have hc : Cancelling db own c booking [] 0 0 := h
    refine cancelSeatLoop_ok ⟨hc.locked, hc.found, hc.confirmed, hc.user, ?_, by simp, by simp,
      Nat.le_refl 0, ?_⟩
    · intro s hs
      obtain ⟨r, hr, rfl⟩ := List.mem_map.mp hs
      have hr' := (exchangeSort_perm _ _).subset hr
      obtain ⟨p, hp, rfl⟩ := List.mem_map.mp hr'
      exact List.mem_map.mpr ⟨p, List.mem_of_mem_take hp, rfl⟩
    · rw [(exchangeSort_perm _ _).length_eq, List.length_map]
      exact List.length_take_le _ _
  | @skipped booking rows i hg =>
    obtain ⟨hi, hc⟩ := h
    refine cancelSeatLoop_ok ⟨hc.locked, hc.found, hc.confirmed, hc.user, hc.of_booking,
      hc.seats_locked, ?_, Nat.le_refl _, hc.few⟩
    intro s hs seat hseat
    rw [take_succ_seatAt (by simpa using hi), List.mem_append, List.mem_singleton] at hs
    rcases hs with hs | rfl
    · exact hc.released s hs seat hseat
    · rw [hg] at hseat; cases hseat
  | toRelease hg => exact ⟨h.1, h.2, hg⟩
  | releaseLost _ => trivial
  | @released booking rows i seat seat' hg' =>
    obtain ⟨hi, hc, hg⟩ := h
    refine cancelSeatLoop_ok ⟨hc.locked, hc.found, hc.confirmed, hc.user, hc.of_booking,
      hc.seats_locked, ?_, Nat.le_refl _, hc.few⟩
    intro s hs seat₂ hseat
    by_cases hsi : s = seatAt (rows.map BookingSeatRecord.seatId) i
    · subst hsi
      rw [OTable.get?_update_self hg', Option.some.injEq] at hseat
      rw [← hseat]
    · rw [OTable.get?_update_ne hsi] at hseat
      rw [take_succ_seatAt (by simpa using hi), List.mem_append, List.mem_singleton] at hs
      rcases hs with hs | hs
      · exact hc.released s hs seat₂ hseat
      · exact absurd hs hsi
  | bookingLost _ => trivial
  | cancelled _ => trivial

/-- A table call changes only what its caller has locked, and inserts under fresh ids. -/
theorem keeps_table {ts : TableStep} {pc : Pc} (h : CallOk db own c (.table txn ts))
    (he : TableEffect c env db txn ts db' pc) : Keeps own db db' := by
  cases he with
  | verifyAbort _ => exact Keeps.refl own db
  | verified _ => exact Keeps.refl own db
  | inserted _ =>
    refine ⟨rfl, fun _ _ => rfl, ?_, ?_, Nat.le_succ _, fun _ _ h => h⟩
    · intro b _ hb
      exact OTable.get?_insert_ne (Nat.ne_of_lt hb)
    · intro b r hr
      refine ⟨r, ?_, rfl, rfl, rfl⟩
      rw [← hr]
      exact OTable.get?_insert_ne (Nat.ne_of_lt (OTable.get?_lt hr))
  | junction _ =>
    refine ⟨rfl, fun _ _ => rfl, fun _ _ _ => rfl, fun _ r hr => ⟨r, hr, rfl, rfl, rfl⟩,
      Nat.le_refl _, ?_⟩
    intro b s hs
    rw [rowsOf_insert]
    split
    · exact List.mem_append_left _ hs
    · exact hs
  | seatGone _ _ => exact Keeps.refl own db
  | seatFound _ => exact Keeps.refl own db
  | seatLost _ _ => exact Keeps.refl own db
  | @seatBooked b i seat seat' hg' =>
    refine ⟨rfl, ?_, fun _ _ _ => rfl, fun _ r hr => ⟨r, hr, rfl, rfl, rfl⟩, Nat.le_refl _,
      fun _ _ h => h⟩
    intro s hs
    refine OTable.get?_update_ne ?_
    rintro rfl
    exact hs (h.2.1.locked _ (seatAt_mem h.1))
  | findAbort _ => exact Keeps.refl own db
  | bookingFound _ _ _ => exact Keeps.refl own db
  | scanned => exact Keeps.refl own db
  | skipped _ => exact Keeps.refl own db
  | toRelease _ => exact Keeps.refl own db
  | releaseLost _ => exact Keeps.refl own db
  | @released booking rows i seat seat' hg' =>
    refine ⟨rfl, ?_, fun _ _ _ => rfl, fun _ r hr => ⟨r, hr, rfl, rfl, rfl⟩, Nat.le_refl _,
      fun _ _ h => h⟩
    intro s hs
    refine OTable.get?_update_ne ?_
    rintro rfl
    refine hs (h.2.1.seats_locked _ ?_)
    rw [take_succ_seatAt (by simpa using h.1)]
    simp
  | bookingLost _ => exact Keeps.refl own db
  | @cancelled booking booking' rows hg' =>
    have hc : Cancelling db own c booking rows rows.length rows.length := h
    refine ⟨rfl, fun _ _ => rfl, ?_, ?_, Nat.le_refl _, fun _ _ h => h⟩
    · intro b hb _
      refine OTable.get?_update_ne ?_
      rintro rfl
      exact hb hc.locked
    · intro b r hr
      by_cases hb : b = c.bookingId
      · subst hb
        have hbr : booking = r := by
          have := hc.found
          rw [hr, Option.some.injEq] at this
          exact this.symm
        refine ⟨_, OTable.get?_update_self hg', ?_⟩
        rw [hbr]
        exact ⟨rfl, rfl, rfl⟩
      · exact ⟨r, by rw [← hr]; exact OTable.get?_update_ne hb, rfl, rfl, rfl⟩

/-- Junction records are inserted for the booking being written only. -/
theorem rows_table {ts : TableStep} {pc : Pc} (he : TableEffect c env db txn ts db' pc) {b : Nat}
    (hb : (Pc.table txn ts).writing ≠ some b) : db'.rowsOf b = db.rowsOf b := by
  cases he with
  | @junction b' i _ =>
    rw [rowsOf_insert, if_neg]
    rintro rfl
    exact hb rfl
  | _ => rfl

end OwnStep

/-! ## Steps of the ideal system -/

section IdealSteps

variable {db db' : Db} {own own' : List LockKey} {c : Call} {env : Env} {free : LockKey → Prop} {full : Prop}
  {pc pc' : Pc} {next : Next}

/-- The argument checks and the event lookup read the tables only. -/
theorem bookStart_fine (hst : env.storage = .ok) (h : bookStart c env db = some (db', next)) :
    db' = db ∧ ((c.validSeats = false ∧ next = .ret .errInvalidArg none) ∨
      (c.validSeats = true ∧ db.events.get? c.eventId = none ∧ next = .ret .errNotFound none) ∨
      (c.validSeats = true ∧ ∃ evt, db.events.get? c.eventId = some evt ∧
        ((evt.status ≠ .active ∧ next = .ret .errGeneric none) ∨
          (evt.status = .active ∧ next = .goto (.begin (some evt)))))) := by
  unfold bookStart at h
  split at h
  · rename_i hv
    simp only [tableFindById, hst, Option.map_some, Option.some.injEq, Prod.mk.injEq] at h
    obtain ⟨rfl, rfl⟩ := h
    refine ⟨rfl, Or.inr ?_⟩
    cases hg : db.events.get? c.eventId with
    | none => exact Or.inl ⟨hv, rfl, rfl⟩
    | some evt =>
      refine Or.inr ⟨hv, evt, rfl, ?_⟩
      by_cases ha : evt.status = .active
      · exact Or.inr ⟨ha, by simp [ha]⟩
      · exact Or.inl ⟨ha, by simp [ha]⟩
  · rename_i hv
    simp only [Option.some.injEq, Prod.mk.injEq] at h
    exact ⟨h.1.symm, Or.inl ⟨by simpa using hv, h.2.symm⟩⟩

theorem callOk_afterLock {txn : UInt32} {site : LockSite} (hsub : own ⊆ own')
    (hkey : lockKey c site ∈ own') (h : CallOk db own c (.lock .check txn site)) :
    CallOk db own' c (afterLock c txn site) := by
  cases site with
  | bookSeat evt i =>
    obtain ⟨hv, hi, hl⟩ := h
    refine bookLockLoop_ok hv ?_
    intro s hs
    rw [take_succ_seatAt hi, List.mem_append, List.mem_singleton] at hs
    rcases hs with hs | rfl
    · exact hsub (hl s hs)
    · exact hkey
  | cancelBooking => exact hkey
  | cancelSeat booking rows i => exact ⟨h.1, h.2.lock h.1 hsub hkey⟩

/-- **One step of a call** establishes what its next point asks for. -/
theorem callOk_step (hf : env.StorageFine) (h : CallOk db own c pc)
    (hnew : db.rowsOf db.bookings.nextId = [])
    (hs : IdealStep c env free full db own pc db' own' (.goto pc')) : CallOk db' own' c pc' := by
  generalize hn : Next.goto pc' = next at hs
  cases hs with
  | start hst =>
    obtain ⟨rfl, hcase⟩ := bookStart_fine hf.1 hst
    subst hn
    rcases hcase with ⟨-, h⟩ | ⟨-, -, h⟩ | ⟨hv, evt, -, ⟨-, h⟩ | ⟨-, h⟩⟩
    · cases h
    · cases h
    · cases h
    · injection h with h
      subst h
      exact hv
  | beginFull _ => cases hn
  | @begin evt txn =>
    injection hn with hn
    subst hn
    cases evt with
    | none => trivial
    | some evt => exact bookLockLoop_ok h (by simp)
  | held hk =>
    injection hn with hn
    subst hn
    exact callOk_afterLock (fun _ hx => hx) hk h
  | refused _ _ => injection hn with hn; subst hn; trivial
  | @check txn site hk =>
    injection hn with hn
    subst hn
    cases site <;> exact h
  | noMemory _ => injection hn with hn; subst hn; trivial
  | @acquire txn site hfree =>
    injection hn with hn
    subst hn
    have hsub : own ⊆ own ++ [lockKey c site] := List.subset_append_left _ _
    have hkey : lockKey c site ∈ own ++ [lockKey c site] := by simp
    cases site with
    | bookSeat evt i =>
      obtain ⟨hv, hi, hl⟩ := h
      refine ⟨hv, hi, ?_⟩
      intro s hs
      rw [take_succ_seatAt hi, List.mem_append, List.mem_singleton] at hs
      rcases hs with hs | rfl
      · exact hsub (hl s hs)
      · exact hkey
    | cancelBooking => exact hkey
    | cancelSeat booking rows i => exact ⟨h.1, h.2.lock h.1 hsub hkey⟩
  | @register txn site =>
    injection hn with hn
    subst hn
    cases site with
    | bookSeat evt i => exact bookLockLoop_ok h.1 h.2.2
    | cancelBooking => exact h
    | cancelSeat booking rows i => exact h
  | table ht =>
    injection hn with hn
    subst hn
    exact callOk_table h hnew (tableStep_effect hf.1 ht)
  | commitFail _ => injection hn with hn; subst hn; trivial
  | commit => injection hn with hn; subst hn; trivial
  | abort => injection hn with hn; subst hn; trivial
  | unlock => injection hn with hn; subst hn; trivial
  | ret => cases hn

/-- **The guarantee** of one step. -/
theorem keeps_step (hf : env.StorageFine) (h : CallOk db own c pc)
    (hs : IdealStep c env free full db own pc db' own' next) : Keeps own db db' := by
  cases hs with
  | start hst =>
    obtain ⟨rfl, -⟩ := bookStart_fine hf.1 hst
    exact Keeps.refl own db'
  | table ht => exact keeps_table h (tableStep_effect hf.1 ht)
  | _ => exact Keeps.refl own db

theorem rows_step (hf : env.StorageFine) (hs : IdealStep c env free full db own pc db' own' next) {b : Nat}
    (hb : pc.writing ≠ some b) : db'.rowsOf b = db.rowsOf b := by
  cases hs with
  | start hst => obtain ⟨rfl, -⟩ := bookStart_fine hf.1 hst; rfl
  | table ht => exact rows_table (tableStep_effect hf.1 ht) hb
  | _ => rfl

/-- A call writes the same booking from step to step; a new one has a fresh id. -/
theorem writing_step (hf : env.StorageFine) (hs : IdealStep c env free full db own pc db' own' (.goto pc'))
    {b : Nat} (hb : pc'.writing = some b) : pc.writing = some b ∨ b = db.bookings.nextId := by
  have hverify : ∀ evt txn i, (bookVerifyLoop c evt txn i).writing = none := by
    intro evt txn i; unfold bookVerifyLoop; split <;> rfl
  have hlock : ∀ evt txn i, (bookLockLoop c evt txn i).writing = none := by
    intro evt txn i
    unfold bookLockLoop
    split
    · rfl
    · exact hverify evt txn 0
  have hseat : ∀ txn b i, (bookSeatLoop c txn b i).writing = some b := by
    intro txn b i; unfold bookSeatLoop; split <;> rfl
  have hcancel : ∀ txn booking rows i, (cancelSeatLoop txn booking rows i).writing = none := by
    intro txn booking rows i; unfold cancelSeatLoop; split <;> rfl
  have hafter : ∀ txn site, (afterLock c txn site).writing = none := by
    intro txn site
    cases site with
    | bookSeat evt i => exact hlock evt txn (i + 1)
    | cancelBooking => rfl
    | cancelSeat booking rows i => rfl
  generalize hn : Next.goto pc' = next at hs
  cases hs with
  | start hst =>
    obtain ⟨-, hcase⟩ := bookStart_fine hf.1 hst
    subst hn
    rcases hcase with ⟨-, h⟩ | ⟨-, -, h⟩ | ⟨-, evt, -, ⟨-, h⟩ | ⟨-, h⟩⟩
    · cases h
    · cases h
    · cases h
    · injection h with h
      subst h
      cases hb
  | beginFull _ => cases hn
  | @begin evt txn =>
    injection hn with hn
    subst hn
    cases evt with
    | none => cases hb
    | some evt => rw [afterBegin, hlock] at hb; cases hb
  | held _ => injection hn with hn; subst hn; rw [hafter] at hb; cases hb
  | refused _ _ => injection hn with hn; subst hn; cases hb
  | check _ => injection hn with hn; subst hn; cases hb
  | noMemory _ => injection hn with hn; subst hn; cases hb
  | acquire _ => injection hn with hn; subst hn; cases hb
  | register => injection hn with hn; subst hn; rw [hafter] at hb; cases hb
  | @table txn ts db' pc'' ht =>
    injection hn with hn
    subst hn
    cases tableStep_effect hf.1 ht with
    | verifyAbort _ => cases hb
    | verified _ => rw [hverify] at hb; cases hb
    | inserted _ => rw [hseat] at hb; exact Or.inr (Option.some.inj hb).symm
    | junction _ => exact Or.inl hb
    | seatGone _ _ => cases hb
    | seatFound _ => exact Or.inl hb
    | seatLost _ _ => cases hb
    | seatBooked _ => rw [hseat] at hb; exact Or.inl hb
    | findAbort _ => cases hb
    | bookingFound _ _ _ => cases hb
    | scanned => rw [hcancel] at hb; cases hb
    | skipped _ => rw [hcancel] at hb; cases hb
    | toRelease _ => cases hb
    | releaseLost _ => cases hb
    | released _ => rw [hcancel] at hb; cases hb
    | bookingLost _ => cases hb
    | cancelled _ => cases hb
  | commitFail _ => injection hn with hn; subst hn; cases hb
  | commit => injection hn with hn; subst hn; cases hb
  | abort => injection hn with hn; subst hn; cases hb
  | unlock => injection hn with hn; subst hn; cases hb
  | ret => cases hn

end IdealSteps

/-- A call that writes a booking knows how far it has come. -/
theorem CallOk.writes {db : Db} {own : List LockKey} {c : Call} {pc : Pc} (h : CallOk db own c pc)
    {b : Nat} (hb : pc.writing = some b) : ∃ i n, Writing db own c b i n := by
  cases pc with
  | table txn ts =>
    cases ts with
    | bookJunction b' i => cases hb; exact ⟨_, _, h.2⟩
    | bookFindSeat b' i => cases hb; exact ⟨_, _, h.2⟩
    | bookUpdateSeat b' i seat => cases hb; exact ⟨_, _, h.2.1⟩
    | _ => cases hb
  | commit txn out =>
    cases out with
    | none => cases hb
    | some b' => cases hb; exact ⟨_, _, h⟩
  | _ => cases hb

/-- The booking a call is writing exists. -/
theorem CallOk.writing_lt {db : Db} {own : List LockKey} {c : Call} {pc : Pc}
    (h : CallOk db own c pc) {b : Nat} (hb : pc.writing = some b) : b < db.bookings.nextId := by
  obtain ⟨i, n, hw⟩ := h.writes hb
  obtain ⟨r, hr, -⟩ := hw.booking
  exact OTable.get?_lt hr

/-- A call never has so many locks that `txn_lock` refuses the next. -/
theorem CallOk.room {db : Db} {own : List LockKey} {c : Call} {txn : UInt32} {site : LockSite}
    (h : CallOk db own c (.lock .check txn site)) (ho : LockOrder c own (.lock .check txn site))
    (hn : own.Nodup) : own.length < MAX_LOCKS_PER_TXN := by
  have hlen : own.length ≤ (locksBefore c site).length := (hn.subperm ho.1).length_le
  have hmax : MAX_SEATS_PER_BOOKING + 1 < MAX_LOCKS_PER_TXN := by decide
  refine Nat.lt_of_le_of_lt hlen ?_
  cases site with
  | bookSeat evt i =>
    have hseats := (seats_length h.1).2
    simp only [locksBefore, List.length_map, List.length_take]
    omega
  | cancelBooking => exact Nat.lt_of_le_of_lt (Nat.zero_le _) hmax
  | cancelSeat booking rows i =>
    have hfew := h.2.few
    simp only [locksBefore, List.length_cons, List.length_map, List.length_take]
    omega

/-! ## The invariant -/

/-- Every call knows what it should, junction records belong to existing bookings, and no two calls
write the same booking. -/
structure BookInv (s : Ideal) : Prop where
  calls : ∀ i c pc, s.procs i = .running c pc → CallOk s.db (s.own i) c pc
  ids : ∀ b, s.db.bookings.nextId ≤ b → s.db.rowsOf b = []
  one_writer : ∀ i j c d p q b, s.procs i = .running c p → s.procs j = .running d q →
    p.writing = some b → q.writing = some b → i = j

theorem bookInv_init {db : Db} (h : ∀ b, db.bookings.nextId ≤ b → db.rowsOf b = []) :
    BookInv (Ideal.init db) :=
  ⟨(fun i c pc hp => by cases hp), h, (fun i j c d p q b hp => by cases hp)⟩

/-- **Fault-free steps** keep the invariant. -/
theorem bookInv_step {w : World} {s s' : Ideal} {a : Action} (hsim : Sim w s) (hf : StorageFine a)
    (inv : BookInv s) (hs : s.Step a s') : BookInv s' := by
  cases hs with
  | @start i c hi =>
    have hentry : CallOk s.db (s.own i) c c.entry ∧ c.entry.writing = none := by
      cases c <;> exact ⟨trivial, rfl⟩
    refine ⟨?_, inv.ids, ?_⟩
    · intro j d pc hj
      by_cases hji : j = i
      · subst hji
        simp only [Function.update_self, Proc.running.injEq] at hj
        obtain ⟨rfl, rfl⟩ := hj
        exact hentry.1
      · simp only [Function.update_of_ne hji] at hj
        exact inv.calls j d pc hj
    · have hold : ∀ j d p b, Function.update s.procs i (.running c c.entry) j = .running d p →
          p.writing = some b → s.procs j = .running d p := by
        intro j d p b hj hb
        by_cases hji : j = i
        · subst hji
          simp only [Function.update_self, Proc.running.injEq] at hj
          obtain ⟨rfl, rfl⟩ := hj
          rw [hentry.2] at hb
          cases hb
        · simpa only [Function.update_of_ne hji] using hj
      intro j k d e p q b hj hk hp hq
      exact inv.one_writer j k d e p q b (hold j d p b hj hp) (hold k e q b hk hq) hp hq
  | @run i env c pc db' own' next hi hstep =>
    have hfine : env.StorageFine := hf
    have hok := inv.calls i c pc hi
    have hkeeps := keeps_step hfine hok hstep
    refine ⟨?_, ?_, ?_⟩
    · intro j d q hj
      by_cases hji : j = i
      · subst hji
        simp only [Function.update_self] at hj ⊢
        cases next with
        | ret rc out => cases hj
        | goto pc' =>
          simp only [Next.proc, Proc.running.injEq] at hj
          obtain ⟨rfl, rfl⟩ := hj
          exact callOk_step hfine hok (inv.ids _ (Nat.le_refl _)) hstep
      · simp only [Function.update_of_ne hji] at hj ⊢
        refine (inv.calls j d q hj).stable hkeeps ?_ ?_
        · intro key hk hmine
          exact hji (hsim.inv.disjoint j i key hk hmine)
        · intro b hb
          refine rows_step hfine hstep ?_
          intro hw
          exact hji (inv.one_writer j i d c q pc b hj hi hb hw)
    · intro b hb
      have hb' : s.db.bookings.nextId ≤ b := Nat.le_trans hkeeps.next hb
      rw [rows_step hfine hstep]
      · exact inv.ids b hb'
      · intro hw
        have := hok.writing_lt hw
        omega
    · have hcase : ∀ j d p b, Function.update s.procs i (next.proc c) j = .running d p →
          p.writing = some b → (∃ p', s.procs j = .running d p' ∧ p'.writing = some b) ∨
            (j = i ∧ b = s.db.bookings.nextId) := by
        intro j d p b hj hb
        by_cases hji : j = i
        · subst hji
          simp only [Function.update_self] at hj
          cases next with
          | ret rc out => cases hj
          | goto pc' =>
            simp only [Next.proc, Proc.running.injEq] at hj
            obtain ⟨rfl, rfl⟩ := hj
            rcases writing_step hfine hstep hb with h | h
            · exact Or.inl ⟨pc, hi, h⟩
            · exact Or.inr ⟨rfl, h⟩
        · simp only [Function.update_of_ne hji] at hj
          exact Or.inl ⟨p, hj, hb⟩
      have hfresh : ∀ j d p, s.procs j = .running d p →
          p.writing ≠ some s.db.bookings.nextId := by
        intro j d p hj hw
        exact Nat.lt_irrefl _ ((inv.calls j d p hj).writing_lt hw)
      intro j k d e p q b hj hk hp hq
      rcases hcase j d p b hj hp with ⟨p', hj', hp'⟩ | ⟨rfl, rfl⟩
      · rcases hcase k e q b hk hq with ⟨q', hk', hq'⟩ | ⟨rfl, rfl⟩
        · exact inv.one_writer j k d e p' q' b hj' hk' hp' hq'
        · exact absurd hp' (hfresh j d p' hj')
      · rcases hcase k e q _ hk hq with ⟨q', hk', hq'⟩ | ⟨rfl, -⟩
        · exact absurd hq' (hfresh k e q' hk')
        · rfl

end Ticketing
