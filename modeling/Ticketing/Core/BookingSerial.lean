import Ticketing.Core.BookingConsistency
import Ticketing.Core.BookingWrap

/-!
# Bookings take effect one after another

Bookings lock their seats, check them, write them and release the locks at the end, so each can be
placed where its transaction ends.  The seats as the finished bookings have left them, in that
order, differ from the table only by the marks of bookings that hold the locks.

* `bookResult`, `bookSpec` — what one booking returns and does to the seats, as one step.
* `marked` — the seats a call has marked already.
* `SerialOk` — what a booking knows besides `CallOk`: its event is active, and where it is about to
  abort, why.
* `SerialInv`, `serialInv_step` — the log of finished bookings replays to what is in the tables.
-/

set_option autoImplicit false

namespace Ticketing

/-! ## A booking as one step -/

/-- The record of a seat booked by a user. -/
def markSeat (user : Nat) (seat : SeatRecord) : SeatRecord :=
  { seat with status := .booked, bookedBy := user }

/-- Mark the seats of a list. -/
def markSeats (user : Nat) (seats : OTable SeatRecord) (l : List Nat) : OTable SeatRecord :=
  l.foldl (fun t s => (t.get? s).elim t (fun seat => t.update s (markSeat user seat))) seats

/-- The first complaint of the verification loop. -/
def Db.firstRefusal (db : Db) (c : Call) : Option EtpResult :=
  c.seats.findSome? (db.seatCheck c.eventId)

/-- What `booking_book_seats` returns when it runs alone. -/
def bookResult (db : Db) (c : Call) : EtpResult :=
  if c.validSeats then
    match db.events.get? c.eventId with
    | none => .errNotFound
    | some evt => if evt.status ≠ .active then .errGeneric else (db.firstRefusal c).getD .ok
  else .errInvalidArg

/-- Its result and what it does to the seats. -/
def bookSpec (db : Db) (c : Call) : EtpResult × Db :=
  (bookResult db c,
    if bookResult db c = .ok then { db with seats := markSeats c.userId db.seats c.seats } else db)

theorem markSeats_eq (user : Nat) (seats : OTable SeatRecord) (l : List Nat) :
    markSeats user seats l = seats.modifyAll (markSeat user) l := rfl

theorem get?_markSeats (user : Nat) (l : List Nat) (seats : OTable SeatRecord) (s : Nat) :
    (markSeats user seats l).get? s =
      if s ∈ l then (seats.get? s).map (markSeat user) else seats.get? s :=
  @OTable.get?_modifyAll _ (markSeat user) (fun _ => rfl) seats l s

theorem nextId_markSeats (user : Nat) (l : List Nat) (seats : OTable SeatRecord) :
    (markSeats user seats l).nextId = seats.nextId :=
  OTable.nextId_modifyAll _ seats l

theorem seatCheck_ne_ok {db : Db} {event s : Nat} : db.seatCheck event s ≠ some .ok := by
  unfold Db.seatCheck
  split
  · simp
  · split
    · simp
    · split <;> simp

theorem firstRefusal_ne_ok {db : Db} {c : Call} : db.firstRefusal c ≠ some .ok := by
  intro h
  obtain ⟨s, -, hs⟩ := List.exists_of_findSome?_eq_some h
  exact seatCheck_ne_ok hs

/-- The seats of the call decide. -/
theorem firstRefusal_congr {db db' : Db} {c : Call}
    (h : ∀ s ∈ c.seats, db'.seats.get? s = db.seats.get? s) :
    db'.firstRefusal c = db.firstRefusal c := by
  have key : ∀ l : List Nat, (∀ s ∈ l, db'.seats.get? s = db.seats.get? s) →
      l.findSome? (db'.seatCheck c.eventId) = l.findSome? (db.seatCheck c.eventId) := by
    intro l hl
    induction l with
    | nil => rfl
    | cons x l ih =>
      have hx : db'.seatCheck c.eventId x = db.seatCheck c.eventId x := by
        rw [Db.seatCheck, Db.seatCheck, hl x List.mem_cons_self]
      simp only [List.findSome?_cons, hx, ih (fun s hs => hl s (List.mem_cons_of_mem _ hs))]
  exact key c.seats h

theorem firstRefusal_eq_none {db : Db} {c : Call} :
    db.firstRefusal c = none ↔ ∀ s ∈ c.seats, db.SeatAvailable c.eventId s := by
  rw [Db.firstRefusal, List.findSome?_eq_none_iff]
  exact forall₂_congr (fun s _ => Db.seatCheck_eq_none)

/-- The loop stops at the first seat that fails. -/
theorem firstRefusal_at {db : Db} {c : Call} {i : Nat} {rc : EtpResult} (hi : i < c.seats.length)
    (hprev : ∀ s ∈ c.seats.take i, db.SeatAvailable c.eventId s)
    (h : db.seatCheck c.eventId (seatAt c.seats i) = some rc) : db.firstRefusal c = some rc := by
  have hsplit : c.seats = c.seats.take i ++ seatAt c.seats i :: c.seats.drop (i + 1) := by
    rw [← drop_seatAt hi, List.take_append_drop]
  have hnone : (c.seats.take i).findSome? (db.seatCheck c.eventId) = none := by
    rw [List.findSome?_eq_none_iff]
    exact fun s hs => Db.seatCheck_eq_none.mpr (hprev s hs)
  rw [Db.firstRefusal, hsplit, List.findSome?_append, hnone, List.findSome?_cons, h]
  rfl

/-- The arguments pass their checks and the event is active. -/
def Started (db : Db) (c : Call) : Prop :=
  c.validSeats = true ∧ ∃ evt, db.events.get? c.eventId = some evt ∧ evt.status = .active

theorem Started.bookResult {db : Db} {c : Call} (h : Started db c) :
    bookResult db c = (db.firstRefusal c).getD .ok := by
  obtain ⟨hv, evt, hevt, hact⟩ := h
  simp [Ticketing.bookResult, hv, hevt, hact]

theorem Started.congr {db db' : Db} {c : Call} (h : Started db c) (he : db'.events = db.events) :
    Started db' c := by
  obtain ⟨hv, evt, hevt, hact⟩ := h
  exact ⟨hv, evt, by rw [he]; exact hevt, hact⟩

/-! ## Where a booking stands -/

/-- The seats a call has marked and not yet given to the log. -/
def marked (c : Call) : Pc → List Nat
  | .table _ (.bookJunction _ i) => c.seats.take i
  | .table _ (.bookFindSeat _ i) => c.seats.take i
  | .table _ (.bookUpdateSeat _ i _) => c.seats.take i
  | .commit _ (some _) => c.seats
  | _ => []

/-- What a booking knows besides `CallOk`; no booking stands elsewhere. -/
def SerialOk (db : Db) (own : List LockKey) (c : Call) : Pc → Prop
  | .bookStart => True
  | .begin (some _) => Started db c
  | .lock _ _ (.bookSeat _ _) => Started db c
  | .table _ (.bookVerify _ _) => Started db c
  | .table _ (.bookInsert _) => Started db c
  | .table _ (.bookJunction _ _) => Started db c
  | .table _ (.bookFindSeat _ _) => Started db c
  | .table _ (.bookUpdateSeat _ _ _) => Started db c
  | .commit _ (some _) => Started db c
  | .abort _ rc => Started db c ∧ (∀ s ∈ c.seats, seatKey s ∈ own) ∧ db.firstRefusal c = some rc
  | .release _ _ _ => True
  | _ => False

/-- The call of an entry of the log, and what it returned. -/
def Proc.outcome : Proc → Option (Call × EtpResult × Option Nat)
  | .running c (.release _ rc out) => some (c, rc, out)
  | .done c rc out => some (c, rc, out)
  | _ => none

section OwnStep

variable {db db' : Db} {own own' : List LockKey} {c : Call} {env : Env} {free : LockKey → Prop}
  {full : Prop} {txn : UInt32} {pc : Pc} {next : Next}

/-- A booking has locked the seats it has marked. -/
theorem CallOk.marked_own (h : CallOk db own c pc) {s : Nat} (hs : s ∈ marked c pc) :
    seatKey s ∈ own := by
  cases pc with
  | table txn ts =>
    cases ts with
    | bookJunction b i => exact h.2.locked s (List.mem_of_mem_take hs)
    | bookFindSeat b i => exact h.2.locked s (List.mem_of_mem_take hs)
    | bookUpdateSeat b i seat => exact h.2.1.locked s (List.mem_of_mem_take hs)
    | _ => cases hs
  | commit txn out =>
    cases out with
    | none => cases hs
    | some b => exact Writing.locked h s hs
  | _ => cases hs

/-- What a booking knows survives the steps of the others. -/
theorem SerialOk.stable {mine : List LockKey} (h : SerialOk db own c pc) (hk : Keeps mine db db')
    (hd : ∀ key ∈ own, key ∉ mine) : SerialOk db' own c pc := by
  have hst : Started db c → Started db' c := fun hs => hs.congr hk.events
  cases pc with
  | bookStart => trivial
  | begin evt => cases evt with
    | none => exact h
    | some evt => exact hst h
  | lock stage txn site => cases site with
    | bookSeat evt i => exact hst h
    | _ => exact h
  | table txn ts => cases ts with
    | bookVerify evt i => exact hst h
    | bookInsert evt => exact hst h
    | bookJunction b i => exact hst h
    | bookFindSeat b i => exact hst h
    | bookUpdateSeat b i seat => exact hst h
    | _ => exact h
  | commit txn out => cases out with
    | none => exact h
    | some b => exact hst h
  | abort txn rc =>
    obtain ⟨hs, hl, href⟩ := h
    refine ⟨hst hs, hl, ?_⟩
    rw [← href]
    exact firstRefusal_congr (fun s hs => hk.seats s (hd _ (hl s hs)))
  | orphan txn key => exact h
  | release keys rc out => trivial

/-- The seats marked by a call, wherever it goes. -/
def Next.marked (c : Call) : Next → List Nat
  | .goto pc => Ticketing.marked c pc
  | .ret _ _ => []

/-- What is known where control goes. -/
def Next.SerialOk (db : Db) (own : List LockKey) (c : Call) : Next → Prop
  | .goto pc => Ticketing.SerialOk db own c pc
  | .ret _ _ => True

/-- One step of a booking, seen from the log. -/
inductive BookMove (c : Call) (own : List LockKey) (db db' : Db) (pc : Pc) (next : Next) :
    Prop where
  /-- Nothing is marked and nothing returned. -/
  | quiet (hseats : db'.seats = db.seats) (hmarked : next.marked c = marked c pc)
      (hout : (next.proc c).outcome = (Proc.running c pc).outcome)
  /-- One more seat is marked. -/
  | mark (b i : Nat) (seat : SeatRecord) (hi : i < c.seats.length)
      (hwr : Writing db own c b i (i + 1))
      (hseat : db.seats.get? (seatAt c.seats i) = some seat)
      (hseats : db'.seats = db.seats.update (seatAt c.seats i) (markSeat c.userId seat))
      (hmarked : marked c pc = c.seats.take i) (hnext : next.marked c = c.seats.take (i + 1))
      (hout : (next.proc c).outcome = none) (hold : (Proc.running c pc).outcome = none)
  /-- The booking commits. -/
  | commit (b : Nat) (hdb : db' = db) (hpc : pc.writing = some b) (hmarked : marked c pc = c.seats)
      (hnext : next.marked c = []) (hst : Started db c)
      (hout : (next.proc c).outcome = some (c, .ok, some b))
      (hold : (Proc.running c pc).outcome = none)
  /-- It fails. -/
  | fail (rc : EtpResult) (hdb : db' = db) (hmarked : marked c pc = []) (hnext : next.marked c = [])
      (hrc : rc ≠ .ok) (hout : (next.proc c).outcome = some (c, rc, none))
      (hold : (Proc.running c pc).outcome = none)
      (hwhy : (∀ db₁ : Db, db₁.events = db.events → bookResult db₁ c = rc) ∨
        (Started db c ∧ (∀ s ∈ c.seats, seatKey s ∈ own) ∧ db.firstRefusal c = some rc))

end OwnStep

/-! ## The table and the log -/

/-- A finished booking. -/
structure Entry where
  proc : Nat
  call : Call
  rc : EtpResult

/-- The seats as the finished bookings leave them, one after another. -/
def serialDb (db : Db) (log : List Entry) : Db := (runOps bookSpec db (log.map Entry.call)).2

theorem bookSpec_events (db : Db) (c : Call) : (bookSpec db c).2.events = db.events := by
  unfold bookSpec
  split <;> rfl

theorem serialDb_events (db : Db) (log : List Entry) : (serialDb db log).events = db.events := by
  unfold serialDb
  induction log generalizing db with
  | nil => rfl
  | cons e log ih => exact (ih _).trans (bookSpec_events db e.call)

/-- The seats `seats` are those of `serial` with the marks of the running calls. -/
structure Agree (serial seats : OTable SeatRecord) (procs : Nat → Proc) : Prop where
  agree : ∀ t, (∀ i c pc, procs i = .running c pc → t ∉ marked c pc) →
    seats.get? t = serial.get? t
  pending : ∀ i c pc, procs i = .running c pc → ∀ t ∈ marked c pc, ∃ seat,
    serial.get? t = some seat ∧ seat.eventId = c.eventId ∧ seat.status = .available ∧
      seats.get? t = some (markSeat c.userId seat)

section AgreeSteps

variable {serial seats : OTable SeatRecord} {procs : Nat → Proc} {i : Nat} {c : Call} {pc : Pc}
  {next : Next}

/-- Nothing is marked. -/
theorem Agree.quiet (h : Agree serial seats procs) (hi : procs i = .running c pc)
    (hm : next.marked c = marked c pc) :
    Agree serial seats (Function.update procs i (next.proc c)) := by
  constructor
  · intro t hun
    refine h.agree t ?_
    intro j d q hj ht
    by_cases hji : j = i
    · subst hji
      rw [hi, Proc.running.injEq] at hj
      obtain ⟨rfl, rfl⟩ := hj
      rw [← hm] at ht
      cases next with
      | ret rc out => cases ht
      | goto pc' => exact hun j c pc' (running_update.mpr (Or.inl ⟨rfl, rfl, rfl⟩)) ht
    · exact hun j d q (running_update.mpr (Or.inr ⟨hji, hj⟩)) ht
  · intro j d q hj t ht
    rcases running_update.mp hj with ⟨rfl, rfl, rfl⟩ | ⟨-, hj⟩
    · refine h.pending j d pc hi t ?_
      rw [← hm]
      exact ht
    · exact h.pending j d q hj t ht

/-- One more seat is marked. -/
theorem Agree.mark (h : Agree serial seats procs) (hi : procs i = .running c pc) {k : Nat}
    (hk : k < c.seats.length) {seat : SeatRecord}
    (hs : seats.get? (seatAt c.seats k) = some seat)
    (hev : seat.eventId = c.eventId) (hav : seat.status = .available)
    (hun : ∀ j d q, procs j = .running d q → seatAt c.seats k ∉ marked d q)
    (hm : marked c pc = c.seats.take k) (hnext : next.marked c = c.seats.take (k + 1)) :
    Agree serial (seats.update (seatAt c.seats k) (markSeat c.userId seat))
      (Function.update procs i (next.proc c)) := by
  rw [take_succ_seatAt hk] at hnext
  obtain ⟨pc', rfl⟩ : ∃ pc', next = .goto pc' := by
    cases next with
    | ret rc out =>
      have hnil : [] = c.seats.take k ++ [seatAt c.seats k] := hnext
      simp at hnil
    | goto pc' => exact ⟨pc', rfl⟩
  have hserial := h.agree _ hun
  constructor
  · intro t hun'
    have hmine := hun' i c pc' (running_update.mpr (Or.inl ⟨rfl, rfl, rfl⟩))
    have hmarks : marked c pc' = c.seats.take k ++ [seatAt c.seats k] := hnext
    rw [hmarks, List.mem_append, List.mem_singleton, not_or] at hmine
    rw [OTable.get?_update_ne hmine.2]
    refine h.agree t ?_
    intro j d q hj ht
    by_cases hji : j = i
    · subst hji
      rw [hi, Proc.running.injEq] at hj
      obtain ⟨rfl, rfl⟩ := hj
      rw [hm] at ht
      exact hmine.1 ht
    · exact hun' j d q (running_update.mpr (Or.inr ⟨hji, hj⟩)) ht
  · intro j d q hj t ht
    have hold : ∀ j d q, procs j = .running d q → t ∈ marked d q → ∃ seat₀,
        serial.get? t = some seat₀ ∧ seat₀.eventId = d.eventId ∧ seat₀.status = .available ∧
          (seats.update (seatAt c.seats k) (markSeat c.userId seat)).get? t =
            some (markSeat d.userId seat₀) := by
      intro j d q hj ht
      have hne : t ≠ seatAt c.seats k := by
        rintro rfl
        exact hun j d q hj ht
      rw [OTable.get?_update_ne hne]
      exact h.pending j d q hj t ht
    rcases running_update.mp hj with ⟨rfl, rfl, hq⟩ | ⟨-, hj⟩
    · injection hq with hq
      subst hq
      have ht' : t ∈ d.seats.take k ++ [seatAt d.seats k] := by
        rw [← hnext]
        exact ht
      rcases List.mem_append.mp ht' with ht' | ht'
      · exact hold j d pc hi (by rw [hm]; exact ht')
      · rw [List.mem_singleton] at ht'
        subst ht'
        exact ⟨seat, by rw [← hserial, hs], hev, hav, OTable.get?_update_self hs⟩
    · exact hold j d q hj ht

/-- The marks of a call go over to the log. -/
theorem Agree.commit (h : Agree serial seats procs) (hi : procs i = .running c pc)
    (hm : marked c pc = c.seats) (hnext : next.marked c = [])
    (hothers : ∀ j d q, j ≠ i → procs j = .running d q → ∀ t ∈ c.seats, t ∉ marked d q) :
    Agree (markSeats c.userId serial c.seats) seats
      (Function.update procs i (next.proc c)) := by
  constructor
  · intro t hun
    rw [get?_markSeats]
    by_cases ht : t ∈ c.seats
    · obtain ⟨seat, hs, -, -, hmark⟩ := h.pending i c pc hi t (by rw [hm]; exact ht)
      rw [if_pos ht, hs, hmark]
      rfl
    · rw [if_neg ht]
      refine h.agree t ?_
      intro j d q hj hmem
      by_cases hji : j = i
      · subst hji
        rw [hi, Proc.running.injEq] at hj
        obtain ⟨rfl, rfl⟩ := hj
        rw [hm] at hmem
        exact ht hmem
      · exact hun j d q (running_update.mpr (Or.inr ⟨hji, hj⟩)) hmem
  · intro j d q hj t ht
    rcases running_update.mp hj with ⟨rfl, rfl, rfl⟩ | ⟨hji, hj⟩
    · have hnil : marked d q = [] := hnext
      rw [hnil] at ht
      cases ht
    · have hne : t ∉ c.seats := fun hmem => hothers j d q hji hj t hmem ht
      rw [get?_markSeats, if_neg hne]
      exact h.pending j d q hj t ht

end AgreeSteps

/-- **The log of finished bookings** replays, and the tables are what it leaves, up to the marks of
the bookings under way. -/
structure SerialInv (db₀ : Db) (log : List Entry) (s : Ideal) : Prop extends BookInv s where
  order : s.LocksOrdered
  serial : ∀ i c pc, s.procs i = .running c pc → SerialOk s.db (s.own i) c pc
  nodup : (log.map Entry.proc).Nodup
  mem : ∀ i c rc, ⟨i, c, rc⟩ ∈ log ↔ ∃ out, (s.procs i).outcome = some (c, rc, out)
  results : (runOps bookSpec db₀ (log.map Entry.call)).1 = log.map Entry.rc
  events : s.db.events = db₀.events
  next : s.db.seats.nextId = db₀.seats.nextId
  agree : Agree (serialDb db₀ log).seats s.db.seats s.procs

section Steps

variable {w : World} {s s' : Ideal} {a : Action} {db₀ : Db} {log : List Entry}

/-- A seat that a call has locked and not marked is as the log leaves it. -/
theorem SerialInv.unmarked (inv : SerialInv db₀ log s) (hsim : Sim w s) {i : Nat} {c : Call}
    {pc : Pc} (hi : s.procs i = .running c pc) {t : Nat} (hl : seatKey t ∈ s.own i)
    (ht : t ∉ marked c pc) (j : Nat) (d : Call) (q : Pc) (hj : s.procs j = .running d q) :
    t ∉ marked d q := by
  intro hmem
  have hji := hsim.inv.disjoint j i _ ((inv.calls j d q hj).marked_own hmem) hl
  subst hji
  rw [hi, Proc.running.injEq] at hj
  obtain ⟨rfl, rfl⟩ := hj
  exact ht hmem

end Steps

end Ticketing
