import Ticketing.Core.BookingSerial
import Mathlib.Algebra.BigOperators.Group.Finset.Piecewise
import Mathlib.Algebra.Order.BigOperators.Group.Finset

/-!
# The records that bookings leave

* `MadeInv` — every booking that returned `ETP_OK` has left its record and junction records, and
  every other record is old or belongs to a booking under way.
* `CountInv` — how many records have been inserted, counted call by call.
-/

set_option autoImplicit false

namespace Ticketing

/-! ## Bookings made -/

/-- The booking `b` of a call, with all its junction records. -/
structure Made (db₀ db : Db) (c : Call) (b : Nat) : Prop where
  new : db₀.bookings.nextId ≤ b
  record : ∃ r, db.bookings.get? b = some r ∧ r.status = .confirmed ∧ r.userId = c.userId ∧
    r.eventId = c.eventId
  rows : db.rowsOf b = c.seats

/-- Old bookings are untouched, new ones are made or being written. -/
structure MadeInv (db₀ : Db) (s : Ideal) : Prop where
  grows : db₀.bookings.nextId ≤ s.db.bookings.nextId
  old : ∀ b < db₀.bookings.nextId,
    s.db.bookings.get? b = db₀.bookings.get? b ∧ s.db.rowsOf b = db₀.rowsOf b
  made : ∀ i c out, (s.procs i).outcome = some (c, .ok, out) → ∃ b, out = some b ∧
    Made db₀ s.db c b
  new : ∀ b r, db₀.bookings.nextId ≤ b → s.db.bookings.get? b = some r →
    (∃ i c pc, s.procs i = .running c pc ∧ pc.writing = some b) ∨
      ∃ i c, (s.procs i).outcome = some (c, .ok, some b)
  written : ∀ i c pc b, s.procs i = .running c pc → pc.writing = some b →
    db₀.bookings.nextId ≤ b ∧ s.db.Confirmed b ∧
      ∀ j d, (s.procs j).outcome ≠ some (d, .ok, some b)

section Steps

variable {w : World} {s s' : Ideal} {a : Action} {db₀ : Db} {log : List Entry} {i : Nat} {c : Call}
  {pc : Pc} {env : Env} {db' : Db} {own' : List LockKey} {next : Next}

/-- A booking changes no existing booking record. -/
theorem book_booking_step (hf : env.StorageFine) (hok : SerialOk s.db (s.own i) c pc)
    (hstep : IdealStep c env s.Free s.Full s.db (s.own i) pc db' own' next) {b : Nat}
    (hb : b < s.db.bookings.nextId) : db'.bookings.get? b = s.db.bookings.get? b := by
  rcases booking_step hf hstep b with hsame | ⟨_, _, heq, -⟩ | ⟨_, _, _, -, rfl, -⟩
  · exact hsame
  · omega
  · cases hok

/-- What has been made stays. -/
theorem Made.stable {d : Call} {b : Nat} (h : Made db₀ s.db d b) (hf : env.StorageFine)
    (hok : SerialOk s.db (s.own i) c pc)
    (hstep : IdealStep c env s.Free s.Full s.db (s.own i) pc db' own' next)
    (hw : pc.writing ≠ some b) : Made db₀ db' d b := by
  obtain ⟨r, hr, hconf⟩ := h.record
  refine ⟨h.new, ⟨r, ?_, hconf⟩, ?_⟩
  · rw [book_booking_step hf hok hstep (OTable.get?_lt hr)]
    exact hr
  · rw [rows_step hf hstep hw]
    exact h.rows

/-- How a step changes what has been returned. -/
theorem BookMove.outcome (hi : s.procs i = .running c pc)
    (hm : BookMove c (s.own i) s.db db' pc next) {j : Nat} {d : Call} {out : Option Nat}
    (h : (Function.update s.procs i (next.proc c) j).outcome = some (d, .ok, out)) :
    ((s.procs j).outcome = some (d, .ok, out) ∧ (j = i → pc.writing = none)) ∨
      (j = i ∧ d = c ∧ db' = s.db ∧ ∃ b, out = some b ∧ pc.writing = some b ∧
        marked c pc = c.seats) := by
  by_cases hji : j = i
  · subst hji
    rw [Function.update_self] at h
    cases hm with
    | quiet hseats hmarked hout =>
      rw [hout] at h
      refine Or.inl ⟨by rw [hi]; exact h, fun _ => ?_⟩
      cases pc with
      | release keys rc out => rfl
      | _ => cases h
    | mark b k seat hk hwr hseat hseats hmarked hnext hout hold => rw [hout] at h; cases h
    | commit b hdb hpc hmarked hnext hst hout hold =>
      rw [hout] at h
      simp only [Option.some.injEq, Prod.mk.injEq, true_and] at h
      exact Or.inr ⟨rfl, h.1.symm, hdb, b, h.2.symm, hpc, hmarked⟩
    | fail rc hdb hmarked hnext hrc hout hold hwhy =>
      rw [hout] at h
      simp only [Option.some.injEq, Prod.mk.injEq] at h
      exact absurd h.2.1 hrc
  · rw [Function.update_of_ne hji] at h
    exact Or.inl ⟨h, fun heq => absurd heq hji⟩

end Steps

/-! ## Counting insertions -/

/-- The booking records a call has inserted. -/
def Proc.bookings : Proc → Nat
  | .running _ (.table _ (.bookJunction _ _)) => 1
  | .running _ (.table _ (.bookFindSeat _ _)) => 1
  | .running _ (.table _ (.bookUpdateSeat _ _ _)) => 1
  | .running _ (.commit _ (some _)) => 1
  | .running _ (.release _ .ok _) => 1
  | .done _ .ok _ => 1
  | _ => 0

/-- The junction records a call has inserted. -/
def Proc.junctions : Proc → Nat
  | .running _ (.table _ (.bookJunction _ i)) => i
  | .running _ (.table _ (.bookFindSeat _ i)) => i + 1
  | .running _ (.table _ (.bookUpdateSeat _ i _)) => i + 1
  | .running c (.commit _ (some _)) => c.seats.length
  | .running c (.release _ .ok _) => c.seats.length
  | .done c .ok _ => c.seats.length
  | _ => 0

/-- The counter `n` of the tables has moved on by what the calls have inserted. -/
def Counts (n : Db → Nat) (f : Proc → Nat) (db₀ : Db) (s : Ideal) : Prop :=
  ∀ N, (∀ i, N ≤ i → s.procs i = .idle) → n s.db = n db₀ + ∑ i ∈ Finset.range N, f (s.procs i)

/-- The insertions of bookings and junction records, and that the counters have not wrapped. -/
structure CountInv (db₀ : Db) (s : Ideal) : Prop where
  bookings : Counts (fun db => db.bookings.nextId) Proc.bookings db₀ s
  junctions : Counts (fun db => db.bookingSeats.nextId) Proc.junctions db₀ s
  booking_ids : s.db.bookings.nextId ≤ 2 ^ 32
  junction_ids : s.db.bookingSeats.nextId ≤ 2 ^ 32

section Counting

variable {w : World} {s s' : Ideal} {a : Action} {db₀ : Db} {log : List Entry} {i : Nat} {c : Call}
  {pc : Pc} {env : Env} {db db' : Db} {own own' : List LockKey} {free : LockKey → Prop}
  {full : Prop} {next : Next}

/-- One call moves on, and so does the counter. -/
theorem Counts.move {n : Db → Nat} {f : Proc → Nat} (h : Counts n f db₀ s) {P : Proc}
    {own' : Nat → List LockKey} (hP : P ≠ .idle) (hn : n db' + f (s.procs i) = n s.db + f P) :
    Counts n f db₀ ⟨db', Function.update s.procs i P, own'⟩ := by
  intro N hidle
  have hi : i < N := by
    by_contra hge
    have := hidle i (Nat.not_lt.mp hge)
    simp only [Function.update_self] at this
    exact hP this
  have hold : n s.db = n db₀ + ∑ j ∈ Finset.range N, f (s.procs j) := by
    refine h N ?_
    intro j hj
    have hji : j ≠ i := by omega
    have := hidle j hj
    simpa only [Function.update_of_ne hji] using this
  have hcomp : ∀ j, f (Function.update s.procs i P j) =
      Function.update (fun j => f (s.procs j)) i (f P) j := by
    intro j
    by_cases hji : j = i
    · subst hji; simp
    · simp [hji]
  have hmem : i ∈ Finset.range N := Finset.mem_range.mpr hi
  simp only [hcomp]
  rw [Finset.sum_update_of_mem hmem]
  rw [Finset.sum_eq_add_sum_sdiff_singleton_of_mem hmem] at hold
  omega

end Counting

end Ticketing
