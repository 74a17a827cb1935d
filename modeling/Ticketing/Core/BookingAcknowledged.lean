import Ticketing.Core.BookingConsistency

/-!
# Bookings that have been acknowledged

Once `booking_book_seats` has passed its commit, no other call touches what it has written, short of a
cancellation of the booking.

* `Proc.Acknowledges` — the call returns the id of its booking, or has returned it; `acknowledges_step`: from
  its commit on.
* `Ideal.Kept` — the booking of the call is there with all its junction records; `kept_commit`, `Kept.step`.
* `Ideal.Standing` — no call cancels the booking; `Kept.seats`: then its seats are booked.
-/

set_option autoImplicit false

namespace Ticketing

/-! ## Returning an id -/

/-- The booking id that a call on its way out returns. -/
def Pc.returns : Pc → Option Nat
  | .release _ _ out => out
  | _ => none

/-- The same of where control goes. -/
def Next.returns : Next → Option Nat
  | .goto pc => pc.returns
  | .ret _ out => out

/-- The call `c` returns the booking id `b`, or has returned it. -/
def Proc.Acknowledges : Proc → Call → Nat → Prop
  | .idle, _, _ => False
  | .running d pc, c, b => d = c ∧ pc.returns = some b
  | .done d _ out, c, b => d = c ∧ out = some b

section Returns

variable {c d : Call} {b : Nat} {txn : UInt32}

theorem Next.acknowledges_iff {next : Next} : (next.proc c).Acknowledges d b ↔ c = d ∧ next.returns = some b := by
  cases next <;> exact Iff.rfl

theorem bookVerifyLoop_returns (evt : EventRecord) (i : Nat) : (bookVerifyLoop c evt txn i).returns = none := by
  unfold bookVerifyLoop
  split <;> rfl

theorem bookLockLoop_returns (evt : EventRecord) (i : Nat) : (bookLockLoop c evt txn i).returns = none := by
  unfold bookLockLoop
  split
  · rfl
  · exact bookVerifyLoop_returns evt 0

theorem bookSeatLoop_returns (b i : Nat) : (bookSeatLoop c txn b i).returns = none := by
  unfold bookSeatLoop
  split <;> rfl

theorem cancelSeatLoop_returns (booking : BookingRecord) (rows : List BookingSeatRecord) (i : Nat) :
    (cancelSeatLoop txn booking rows i).returns = none := by
  unfold cancelSeatLoop
  split <;> rfl

theorem afterLock_returns (site : LockSite) : (afterLock c txn site).returns = none := by
  cases site with
  | bookSeat evt i => exact bookLockLoop_returns evt (i + 1)
  | cancelBooking => rfl
  | cancelSeat booking rows i => rfl

theorem tableEffect_returns {env : Env} {db db' : Db} {ts : TableStep} {pc : Pc}
    (h : TableEffect c env db txn ts db' pc) : pc.returns = none := by
  cases h with
  | verified _ => exact bookVerifyLoop_returns _ _
  | inserted _ => exact bookSeatLoop_returns _ _
  | seatBooked _ => exact bookSeatLoop_returns _ _
  | scanned => exact cancelSeatLoop_returns _ _ _
  | skipped _ => exact cancelSeatLoop_returns _ _ _
  | released _ => exact cancelSeatLoop_returns _ _ _
  | _ => rfl

/-- Only a commit makes a call return a booking id. -/
theorem idealStep_returns {env : Env} {free : LockKey → Prop} {full : Prop} {db db' : Db} {own own' : List LockKey}
    {pc : Pc} {next : Next} (hf : env.StorageFine) (hs : IdealStep c env free full db own pc db' own' next)
    (hb : next.returns = some b) : pc.returns = some b ∨ ∃ txn, pc = .commit txn (some b) := by
  cases hs with
  | start hst =>
    obtain ⟨-, ⟨-, rfl⟩ | ⟨-, -, rfl⟩ | ⟨-, evt, -, ⟨-, rfl⟩ | ⟨-, rfl⟩⟩⟩ := bookStart_fine hf.1 hst <;> cases hb
  | @begin evt txn =>
    cases evt with
    | none => cases hb
    | some evt => cases (bookLockLoop_returns evt 0).symm.trans hb
  | held _ => cases (afterLock_returns _).symm.trans hb
  | register => cases (afterLock_returns _).symm.trans hb
  | table ht => cases (tableEffect_returns (tableStep_effect hf.1 ht)).symm.trans hb
  | @commit txn out =>
    obtain rfl : out = some b := hb
    exact Or.inr ⟨txn, rfl⟩
  | unlock => exact Or.inl hb
  | ret => exact Or.inl hb
  | _ => cases hb

end Returns

/-! ## What a call has written -/

/-- The booking `b` of the call `c` is there with all its junction records, and nobody is writing it. -/
structure Ideal.Kept (s : Ideal) (c : Call) (b : Nat) : Prop where
  booking : ∃ r, s.db.bookings.get? b = some r ∧ r.userId = c.userId ∧ r.eventId = c.eventId ∧
    r.seatCount = c.seats.length
  rows : s.db.rowsOf b = c.seats
  unwritten : ∀ i d pc, s.procs i = .running d pc → pc.writing ≠ some b

/-- No call cancels the booking `b`, and none has. -/
structure Ideal.Standing (s : Ideal) (b : Nat) : Prop where
  unnamed : ∀ i d pc, s.procs i = .running d pc → d.bookingId ≠ b
  confirmed : ∀ r, s.db.bookings.get? b = some r → r.status = .confirmed

section Steps

variable {w : World} {s s' : Ideal} {a : Action} {c : Call} {b : Nat}

/-- **A call acknowledges** from its commit on. -/
theorem acknowledges_step (hf : StorageFine a) (hs : s.Step a s') {i : Nat}
    (h : (s'.procs i).Acknowledges c b) : (s.procs i).Acknowledges c b ∨
      ∃ env txn, a = .run i env ∧ s.procs i = .running c (.commit txn (some b)) := by
  cases hs with
  | @start j d hj =>
    rcases eq_or_ne i j with rfl | hne
    · simp only [Function.update_self] at h
      cases d <;> cases h.2
    · simp only [Function.update_of_ne hne] at h
      exact Or.inl h
  | @run j env d pc db' own' next hj hstep =>
    rcases eq_or_ne i j with rfl | hne
    · simp only [Function.update_self] at h
      obtain ⟨rfl, hb⟩ := Next.acknowledges_iff.mp h
      rcases idealStep_returns hf hstep hb with hpc | ⟨txn, rfl⟩
      · rw [hj]
        exact Or.inl ⟨rfl, hpc⟩
      · exact Or.inr ⟨env, txn, rfl, hj⟩
    · simp only [Function.update_of_ne hne] at h
      exact Or.inl h

/-- The call of a step writes what it wrote before, or a booking with a new id. -/
theorem writing_run {i : Nat} {env : Env} {pc : Pc} {db' : Db} {own' : List LockKey}
    {next : Next} (hf : env.StorageFine) (hi : s.procs i = .running c pc)
    (hstep : IdealStep c env s.Free s.Full s.db (s.own i) pc db' own' next) {j : Nat} {d : Call} {q : Pc}
    (hj : Function.update s.procs i (next.proc c) j = .running d q) (hq : q.writing = some b) :
    (∃ q', s.procs j = .running d q' ∧ q'.writing = some b) ∨ b = s.db.bookings.nextId := by
  rcases eq_or_ne j i with rfl | hne
  · rw [Function.update_self] at hj
    cases next with
    | ret rc out => cases hj
    | goto pc' =>
      cases hj
      exact (writing_step hf hstep hq).imp (fun hpc => ⟨pc, hi, hpc⟩) id
  · rw [Function.update_of_ne hne] at hj
    exact Or.inl ⟨q, hj, hq⟩

/-- **The commit** of a booking. -/
theorem kept_commit (inv : BookInv s) {i : Nat} {env : Env} {txn : UInt32}
    (hi : s.procs i = .running c (.commit txn (some b))) (hf : env.StorageFine) (hs : s.Step (.run i env) s') :
    s'.Kept c b := by
  cases hs with
  | @run _ _ d pc db' own' next hi' hstep =>
    rw [hi] at hi'
    cases hi'
    have hok : Writing s.db (s.own i) c b c.seats.length c.seats.length := inv.calls i c _ hi
    obtain ⟨r, hr, huser, hevent, hcount⟩ := hok.booking
    have hlt := OTable.get?_lt hr
    have hunwritten : ∀ j d q, Function.update s.procs i (next.proc c) j = .running d q →
        q.writing = some b → j = i := by
      intro j d q hj hq
      rcases writing_run hf hi hstep hj hq with ⟨q', hq', hw⟩ | hnew
      · exact inv.one_writer j i d c q' _ b hq' hi hw rfl
      · omega
    cases hstep with
    | commitFail hfail =>
      rw [hf.2.1, hf.2.2] at hfail
      cases hfail
    | commit =>
      refine ⟨⟨r, hr, huser, hevent, hcount⟩, by rw [hok.rows, List.take_length], fun j d q hj hq => ?_⟩
      obtain rfl := hunwritten j d q hj hq
      simp only [Function.update_self, Next.proc, Proc.running.injEq] at hj
      obtain ⟨-, rfl⟩ := hj
      cases hq

/-- **Every step** keeps it. -/
theorem Ideal.Kept.step (h : s.Kept c b) (inv : BookInv s) (hf : StorageFine a) (hs : s.Step a s') : s'.Kept c b := by
  obtain ⟨⟨r, hr, huser, hevent, hcount⟩, hrows, hunwritten⟩ := h
  cases hs with
  | @start i d hi =>
    refine ⟨⟨r, hr, huser, hevent, hcount⟩, hrows, fun j e q hj hq => ?_⟩
    rcases eq_or_ne j i with rfl | hne
    · simp only [Function.update_self, Proc.running.injEq] at hj
      obtain ⟨rfl, rfl⟩ := hj
      cases d <;> cases hq
    · simp only [Function.update_of_ne hne] at hj
      exact hunwritten j e q hj hq
  | @run i env d pc db' own' next hi hstep =>
    obtain ⟨r', hr', huser', hevent', hcount'⟩ := (keeps_step hf (inv.calls i d pc hi) hstep).ident b r hr
    refine ⟨⟨r', hr', huser'.trans huser, hevent'.trans hevent, hcount'.trans hcount⟩,
      (rows_step hf hstep (hunwritten i d pc hi)).trans hrows, fun j e q hj hq => ?_⟩
    rcases writing_run hf hi hstep hj hq with ⟨q', hq', hw⟩ | hnew
    · exact hunwritten j e q' hq' hw
    · exact absurd (OTable.get?_lt hr) (by omega)

/-- **A step that starts no cancellation of the booking** leaves it standing. -/
theorem Ideal.Standing.step (h : s.Standing b) (hf : StorageFine a) (ha : ∀ i d, a = .start i d → d.bookingId ≠ b)
    (hs : s.Step a s') : s'.Standing b := by
  cases hs with
  | @start i d hi =>
    refine ⟨fun j e q hj => ?_, h.confirmed⟩
    rcases eq_or_ne j i with rfl | hne
    · simp only [Function.update_self, Proc.running.injEq] at hj
      rw [← hj.1]
      exact ha j d rfl
    · simp only [Function.update_of_ne hne] at hj
      exact h.unnamed j e q hj
  | @run i env d pc db' own' next hi hstep =>
    refine ⟨fun j e q hj => ?_, fun r hr => ?_⟩
    · rcases eq_or_ne j i with rfl | hne
      · simp only [Function.update_self] at hj
        cases next with
        | ret rc out => cases hj
        | goto pc' =>
          cases hj
          exact h.unnamed j d pc hi
      · simp only [Function.update_of_ne hne] at hj
        exact h.unnamed j e q hj
    · rcases booking_step hf hstep b with hsame | ⟨_, evt, -, -, hnew, -⟩ | ⟨_, _, _, hcancelled, -⟩
      · exact h.confirmed r (hsame ▸ hr)
      · rw [hnew, Option.some.injEq] at hr
        rw [← hr]
        rfl
      · exact absurd hcancelled.symm (h.unnamed i d pc hi)

/-- **The seats** of a booking that was acknowledged and stands are booked for its user. -/
theorem Ideal.Kept.seats (h : s.Kept c b) (inv : SafeInv s) (hstands : s.Standing b) :
    s.db.Confirmed b ∧ ∀ t ∈ c.seats, s.db.SeatBooked c.userId t := by
  obtain ⟨⟨r, hr, huser, -⟩, hrows, hunwritten⟩ := h
  have hconf := hstands.confirmed r hr
  refine ⟨⟨r, hr, hconf⟩, fun t ht => ?_⟩
  rcases inv.booked b r t hr hconf (hrows ▸ ht) with hbooked | ⟨i, d, pc, hi, hcovers⟩
  · exact huser ▸ hbooked
  · -- the call that would answer for the seat writes the booking or cancels it
    exfalso
    have hw := hunwritten i d pc hi
    have hd := hstands.unnamed i d pc hi
    cases pc with
    | lock stage txn site =>
      cases site with
      | cancelSeat _ _ _ => exact hd hcovers.1.symm
      | _ => exact hcovers
    | table txn ts =>
      cases ts with
      | bookFindSeat b' i => exact hw (congrArg some hcovers.1.symm)
      | bookUpdateSeat b' i seat => exact hw (congrArg some hcovers.1.symm)
      | cancelFindSeat _ _ _ => exact hd hcovers.1.symm
      | cancelUpdateSeat _ _ _ _ => exact hd hcovers.1.symm
      | cancelUpdateBooking _ _ => exact hd hcovers.1.symm
      | _ => exact hcovers
    | _ => exact hcovers

end Steps

end Ticketing
