import Ticketing.Core.BookingCalls

/-!
# No double booking

A junction record of a confirmed booking stands for a booked seat, except while a call that has
locked the seat is between writing the one and the other.

* `Covers` — the junction records a call is answerable for where it stands.
* `pair_step`, `booked_step`, `covers_step` — what one step does to the junction records of
  confirmed bookings, to booked seats, and to what its call is answerable for.
* `SafeInv` — the invariant, and `no_double_booking` for whole runs.
-/

set_option autoImplicit false

namespace Ticketing

/-! ## Junction records in transit -/

/-- The call stands between the junction record of `b` for seat `t` and the seat: a booking that has
not marked it yet, or a cancellation that has released it already. -/
def Covers (c : Call) : Pc → Nat → Nat → Prop
  | .table _ (.bookFindSeat b' i), b, t => b = b' ∧ t = seatAt c.seats i
  | .table _ (.bookUpdateSeat b' i _), b, t => b = b' ∧ t = seatAt c.seats i
  | .lock _ _ (.cancelSeat _ rows i), b, t =>
    b = c.bookingId ∧ t ∈ (rows.map BookingSeatRecord.seatId).take i
  | .table _ (.cancelFindSeat _ rows i), b, t =>
    b = c.bookingId ∧ t ∈ (rows.map BookingSeatRecord.seatId).take i
  | .table _ (.cancelUpdateSeat _ rows i _), b, t =>
    b = c.bookingId ∧ t ∈ (rows.map BookingSeatRecord.seatId).take i
  | .table _ (.cancelUpdateBooking _ rows), b, t =>
    b = c.bookingId ∧ t ∈ rows.map BookingSeatRecord.seatId
  | _, _, _ => False

/-- The same of where control goes. -/
def Next.Covers (c : Call) : Next → Nat → Nat → Prop
  | .goto pc, b, t => Ticketing.Covers c pc b t
  | .ret _ _, _, _ => False

section OwnStep

variable {db db' : Db} {own own' : List LockKey} {c : Call} {env : Env} {free : LockKey → Prop} {full : Prop}
  {txn : UInt32} {pc : Pc} {next : Next} {b t : Nat}

/-- A call answers only for seats it has locked. -/
theorem CallOk.covers_own (h : CallOk db own c pc) (hc : Covers c pc b t) : seatKey t ∈ own := by
  cases pc with
  | lock stage txn site =>
    cases site with
    | cancelSeat booking rows i =>
      cases stage with
      | register =>
        exact h.2.seats_locked t (List.take_subset_take_left _ (Nat.le_succ i) hc.2)
      | _ => exact h.2.seats_locked t hc.2
    | _ => cases hc
  | table txn ts =>
    cases ts with
    | bookFindSeat b' i => rw [hc.2]; exact h.2.locked _ (seatAt_mem h.1)
    | bookUpdateSeat b' i seat => rw [hc.2]; exact h.2.1.locked _ (seatAt_mem h.1)
    | cancelFindSeat booking rows i =>
      exact h.2.seats_locked t (List.take_subset_take_left _ (Nat.le_succ i) hc.2)
    | cancelUpdateSeat booking rows i seat =>
      exact h.2.1.seats_locked t (List.take_subset_take_left _ (Nat.le_succ i) hc.2)
    | cancelUpdateBooking booking rows =>
      refine Cancelling.seats_locked h t ?_
      rw [List.take_of_length_le (by simp)]
      exact hc.2
    | _ => cases hc
  | _ => cases hc

theorem covers_cancelSeatLoop {booking : BookingRecord} {rows : List BookingSeatRecord} {i : Nat}
    (ht : t ∈ (rows.map BookingSeatRecord.seatId).take i) :
    Covers c (cancelSeatLoop txn booking rows i) c.bookingId t := by
  unfold cancelSeatLoop
  split
  · exact ⟨rfl, ht⟩
  · exact ⟨rfl, List.mem_of_mem_take ht⟩

theorem covers_afterLock {site : LockSite} {stage : LockStage}
    (h : Covers c (.lock stage txn site) b t) : Covers c (afterLock c txn site) b t := by
  cases site with
  | cancelSeat booking rows i => exact h
  | _ => cases h

/-- **Responsibility** ends when the seat is marked or the booking is no longer confirmed. -/
theorem covers_step (hf : env.StorageFine)
    (hlocks : ∀ txn booking rows k, pc = .lock .acquire txn (.cancelSeat booking rows k) → 0 < k →
      env.lockAlloc = true)
    (h : CallOk db own c pc) (ho : LockOrder c own pc) (hn : own.Nodup)
    (hs : IdealStep c env free full db own pc db' own' next) (hc : Covers c pc b t) :
    next.Covers c b t ∨ (pc.writing = some b ∧ db'.SeatBooked c.userId t) ∨ ¬ db'.Confirmed b := by
  cases hs with
  | start _ => cases hc
  | beginFull _ => cases hc
  | begin _ => cases hc
  | held _ => exact Or.inl (covers_afterLock hc)
  | refused _ hfull => exact absurd (h.room ho hn) (Nat.not_lt.mpr hfull)
  | @check txn site _ => exact Or.inl (by cases site <;> exact hc)
  | @noMemory txn site hmem =>
    cases site with
    | cancelSeat booking rows k =>
      -- a cancellation answers for a seat only after it has released one
      have hpos : 0 < k := by
        rw [Nat.pos_iff_ne_zero]
        rintro rfl
        exact absurd hc.2 List.not_mem_nil
      rw [hlocks txn booking rows k rfl hpos] at hmem
      cases hmem
    | _ => cases hc
  | @acquire txn site _ => exact Or.inl (by cases site <;> exact hc)
  | register => exact Or.inl (covers_afterLock hc)
  | table ht =>
    cases tableStep_effect hf.1 ht with
    | seatGone _ hg =>
      obtain ⟨seat, hseat, -⟩ := h.2.pending _ (by rw [drop_seatAt h.1]; exact List.mem_cons_self)
      rw [hg] at hseat
      cases hseat
    | seatFound _ => exact Or.inl hc
    | seatLost _ hg => rw [h.2.2] at hg; cases hg
    | seatBooked hg =>
      obtain ⟨rfl, rfl⟩ := hc
      exact Or.inr (Or.inl ⟨rfl, _, OTable.get?_update_self hg, rfl, rfl⟩)
    | skipped _ =>
      obtain ⟨rfl, ht⟩ := hc
      exact Or.inl (covers_cancelSeatLoop (List.take_subset_take_left _ (Nat.le_succ _) ht))
    | toRelease _ => exact Or.inl hc
    | releaseLost hg => rw [h.2.2] at hg; cases hg
    | released _ =>
      obtain ⟨rfl, ht⟩ := hc
      exact Or.inl (covers_cancelSeatLoop (List.take_subset_take_left _ (Nat.le_succ _) ht))
    | bookingLost hg => rw [Cancelling.found h] at hg; cases hg
    | cancelled hg =>
      obtain ⟨rfl, -⟩ := hc
      refine Or.inr (Or.inr ?_)
      rintro ⟨r, hr, hconf⟩
      rw [OTable.get?_update_self hg, Option.some.injEq] at hr
      rw [← hr] at hconf
      cases hconf
    | _ => cases hc
  | commitFail _ => cases hc
  | commit => cases hc
  | abort => cases hc
  | unlock => cases hc
  | ret => cases hc

/-- **A junction record of a confirmed booking** was there before the step, or the call has just
inserted it for a seat it found free. -/
theorem pair_step (hf : env.StorageFine) (h : CallOk db own c pc)
    (hnew : db.rowsOf db.bookings.nextId = [])
    (hs : IdealStep c env free full db own pc db' own' next) {r : BookingRecord}
    (hr : db'.bookings.get? b = some r) (hconf : r.status = .confirmed) (ht : t ∈ db'.rowsOf b) :
    (db.bookings.get? b = some r ∧ t ∈ db.rowsOf b) ∨
      (pc.writing = some b ∧ next.Covers c b t ∧ db.SeatAvailable c.eventId t ∧
        seatKey t ∈ own ∧ ∀ b' t', ¬ Covers c pc b' t') := by
  cases hs with
  | start hst =>
    obtain ⟨rfl, -⟩ := bookStart_fine hf.1 hst
    exact Or.inl ⟨hr, ht⟩
  | table htab =>
    cases tableStep_effect hf.1 htab with
    | inserted _ =>
      by_cases hb : b = db.bookings.nextId
      · subst hb
        have hnil : db.rowsOf db.bookings.nextId = [] := hnew
        exact absurd ht (by show t ∉ db.rowsOf _; rw [hnil]; exact List.not_mem_nil)
      · rw [OTable.get?_insert_ne hb] at hr
        exact Or.inl ⟨hr, ht⟩
    | @junction b' i _ =>
      rw [rowsOf_insert] at ht
      split at ht
      · rename_i hb
        subst hb
        rcases List.mem_append.mp ht with ht | ht
        · exact Or.inl ⟨hr, ht⟩
        · rw [List.mem_singleton] at ht
          subst ht
          refine Or.inr ⟨rfl, ⟨rfl, rfl⟩, ?_, h.2.locked _ (seatAt_mem h.1), fun _ _ hc => hc⟩
          exact h.2.pending _ (by rw [drop_seatAt h.1]; exact List.mem_cons_self)
      · exact Or.inl ⟨hr, ht⟩
    | cancelled hg =>
      by_cases hb : b = c.bookingId
      · subst hb
        rw [OTable.get?_update_self hg, Option.some.injEq] at hr
        rw [← hr] at hconf
        cases hconf
      · rw [OTable.get?_update_ne hb] at hr
        exact Or.inl ⟨hr, ht⟩
    | _ => exact Or.inl ⟨hr, ht⟩
  | _ => exact Or.inl ⟨hr, ht⟩

/-- **A booked seat** stays booked unless a cancellation that now answers for it has released it. -/
theorem booked_step (hf : env.StorageFine) (h : CallOk db own c pc)
    (hs : IdealStep c env free full db own pc db' own' next) {user : Nat} (hb : db.SeatBooked user t) :
    db'.SeatBooked user t ∨
      (next.Covers c c.bookingId t ∧ db.Confirmed c.bookingId ∧ t ∈ db.rowsOf c.bookingId) := by
  cases hs with
  | start hst =>
    obtain ⟨rfl, -⟩ := bookStart_fine hf.1 hst
    exact Or.inl hb
  | table htab =>
    cases tableStep_effect hf.1 htab with
    | @seatBooked b' i seat seat' hg =>
      refine Or.inl (SeatBooked.congr (OTable.get?_update_ne ?_) hb)
      rintro rfl
      -- the seat to be marked is free
      obtain ⟨_, hs₁, hbooked, -⟩ := hb
      obtain ⟨_, hs₂, -, havail⟩ :=
        h.2.1.pending _ (by rw [drop_seatAt h.1]; exact List.mem_cons_self)
      rw [hs₁, Option.some.injEq] at hs₂
      rw [hs₂, havail] at hbooked
      cases hbooked
    | @released booking rows i seat seat' hg =>
      have hi : i < (rows.map BookingSeatRecord.seatId).length := by simpa using h.1
      by_cases hti : t = seatAt (rows.map BookingSeatRecord.seatId) i
      · subst hti
        have hmem : seatAt (rows.map BookingSeatRecord.seatId) i ∈
            (rows.map BookingSeatRecord.seatId).take (i + 1) := by
          rw [take_succ_seatAt hi]
          simp
        exact Or.inr ⟨covers_cancelSeatLoop hmem, ⟨_, h.2.1.found, h.2.1.confirmed⟩,
          h.2.1.of_booking _ (List.mem_of_mem_take hmem)⟩
      · exact Or.inl (SeatBooked.congr (OTable.get?_update_ne hti) hb)
    | _ => exact Or.inl hb
  | _ => exact Or.inl hb

end OwnStep

/-! ## The invariant -/

/-- Some call answers for the junction record of `b` for seat `t`. -/
def Ideal.Covered (s : Ideal) (b t : Nat) : Prop :=
  ∃ i c pc, s.procs i = .running c pc ∧ Covers c pc b t

/-- Junction records of confirmed bookings stand for booked seats or are in transit, and no seat
has two. -/
structure SafeInv (s : Ideal) : Prop extends BookInv s where
  order : s.LocksOrdered
  booked : ∀ b r t, s.db.bookings.get? b = some r → r.status = .confirmed → t ∈ s.db.rowsOf b →
    s.db.SeatBooked r.userId t ∨ s.Covered b t
  unique : ∀ b b' t, s.db.Confirmed b → s.db.Confirmed b' → t ∈ s.db.rowsOf b →
    t ∈ s.db.rowsOf b' → b = b'

/-- Without bookings there is nothing to show. -/
theorem safeInv_init {db : Db} (hb : db.bookings.rows = []) (hj : db.bookingSeats.rows = []) :
    SafeInv (Ideal.init db) := by
  have hrows : ∀ b, db.rowsOf b = [] := by
    intro b
    rw [Db.rowsOf, hj]
    rfl
  refine ⟨bookInv_init (fun b _ => hrows b), ?_, ?_, ?_⟩
  · intro i c pc hp
    cases hp
  · intro b r t hr
    exact absurd (OTable.mem_iff.mpr hr) (by show _ ∉ db.bookings.rows; rw [hb]; simp)
  · intro b b' t _ _ ht
    exact absurd ht (by show t ∉ db.rowsOf b; rw [hrows b]; simp)

section Steps

variable {w : World} {s s' : Ideal} {a : Action}

/-- What a call other than `i` answers for is still answered for after `i` has moved. -/
theorem Covered.move {i : Nat} {c : Call} {pc : Pc} (hi : s.procs i = .running c pc) {db' : Db}
    {own' : Nat → List LockKey} {next : Next} {b t : Nat} (h : s.Covered b t) :
    Covers c pc b t ∨
      Ideal.Covered ⟨db', Function.update s.procs i (next.proc c), own'⟩ b t := by
  obtain ⟨j, d, q, hj, hc⟩ := h
  by_cases hji : j = i
  · subst hji
    rw [hi, Proc.running.injEq] at hj
    obtain ⟨rfl, rfl⟩ := hj
    exact Or.inl hc
  · refine Or.inr ⟨j, d, q, ?_, hc⟩
    simpa only [Function.update_of_ne hji] using hj

theorem Covered.of_next {i : Nat} {c : Call} {db' : Db} {own' : Nat → List LockKey} {next : Next}
    {b t : Nat} (h : next.Covers c b t) :
    Ideal.Covered ⟨db', Function.update s.procs i (next.proc c), own'⟩ b t := by
  cases next with
  | ret rc out => cases h
  | goto pc => exact ⟨i, c, pc, by simp [Next.proc], h⟩

/-- A seat a call has locked and found free, while it answers for nothing, has no junction record of
a confirmed booking. -/
theorem SafeInv.free_seat (inv : SafeInv s) (hsim : Sim w s) {i : Nat} {c : Call} {pc : Pc}
    (hi : s.procs i = .running c pc) (hc : ∀ b t, ¬ Covers c pc b t) {event t : Nat}
    (ha : s.db.SeatAvailable event t) (hl : seatKey t ∈ s.own i) {b : Nat} {r : BookingRecord}
    (hr : s.db.bookings.get? b = some r) (hconf : r.status = .confirmed) : t ∉ s.db.rowsOf b := by
  intro ht
  rcases inv.booked b r t hr hconf ht with ⟨_, hs₁, hbooked, -⟩ | ⟨j, d, q, hj, hcov⟩
  · obtain ⟨_, hs₂, -, havail⟩ := ha
    rw [hs₁, Option.some.injEq] at hs₂
    rw [hs₂, havail] at hbooked
    cases hbooked
  · have hji : j = i :=
      hsim.inv.disjoint j i _ ((inv.calls j d q hj).covers_own hcov) hl
    subst hji
    rw [hi, Proc.running.injEq] at hj
    obtain ⟨rfl, rfl⟩ := hj
    exact hc _ _ hcov

/-- **Steps with working storage** keep the invariant, if no cancellation stops half way. -/
theorem safeInv_step (hsim : Sim w s) (hf : StorageFine a) (hlocks : CancelLocks w.procs a)
    (inv : SafeInv s) (hs : s.Step a s') : SafeInv s' := by
  refine ⟨bookInv_step hsim hf inv.toBookInv hs, locksOrdered_step hsim inv.order hs, ?_, ?_⟩
  · cases hs with
    | @start i c hi =>
      intro b r t hr hconf ht
      refine (inv.booked b r t hr hconf ht).imp id ?_
      rintro ⟨j, d, q, hj, hc⟩
      refine ⟨j, d, q, ?_, hc⟩
      have hji : j ≠ i := by
        rintro rfl
        rw [hi] at hj
        cases hj
      simpa only [Function.update_of_ne hji] using hj
    | @run i env c pc db' own' next hi hstep =>
      have hok := inv.calls i c pc hi
      intro b r t hr hconf ht
      rcases pair_step hf hok (inv.ids _ (Nat.le_refl _)) hstep hr hconf ht with
        ⟨hr₀, ht₀⟩ | ⟨-, hcov, -⟩
      · rcases inv.booked b r t hr₀ hconf ht₀ with hbk | hcov
        · rcases booked_step hf hok hstep hbk with hbk' | ⟨hcov, hconf', ht'⟩
          · exact Or.inl hbk'
          · have hb : b = c.bookingId := inv.unique _ _ t ⟨r, hr₀, hconf⟩ hconf' ht₀ ht'
            rw [hb]
            exact Or.inr (Covered.of_next hcov)
        · rcases Covered.move hi hcov with hmine | hother
          · have hmem : ∀ txn booking rows k, pc = .lock .acquire txn (.cancelSeat booking rows k) →
                0 < k → env.lockAlloc = true := by
              rintro txn booking rows k rfl hk
              exact hlocks c txn booking rows k (by rw [← hsim.procs]; exact hi) hk
            rcases covers_step hf hmem hok (inv.order i c pc hi) (hsim.inv.nodup i) hstep hmine with
              hnext | ⟨hw, hbk⟩ | hnot
            · exact Or.inr (Covered.of_next hnext)
            · -- the booking is the caller's own
              obtain ⟨_, _, hwriting⟩ := CallOk.writes hok hw
              obtain ⟨r₀, hr₁, hu, -⟩ := hwriting.booking
              rw [hr₀, Option.some.injEq] at hr₁
              rw [hr₁, hu]
              exact Or.inl hbk
            · exact absurd ⟨r, hr, hconf⟩ hnot
          · exact Or.inr hother
      · exact Or.inr (Covered.of_next hcov)
  · cases hs with
    | start _ => exact inv.unique
    | @run i env c pc db' own' next hi hstep =>
      have hok := inv.calls i c pc hi
      rintro b b' t ⟨r, hr, hconf⟩ ⟨r', hr', hconf'⟩ ht ht'
      have hcase := fun {b r} => pair_step (b := b) (t := t) (r := r) hf hok
        (inv.ids _ (Nat.le_refl _)) hstep
      rcases hcase hr hconf ht with ⟨hr₀, ht₀⟩ | ⟨hw, -, ha, hl, hno⟩
      · rcases hcase hr' hconf' ht' with ⟨hr₁, ht₁⟩ | ⟨-, -, ha, hl, hno⟩
        · exact inv.unique b b' t ⟨r, hr₀, hconf⟩ ⟨r', hr₁, hconf'⟩ ht₀ ht₁
        · exact absurd ht₀ (inv.free_seat hsim hi hno ha hl hr₀ hconf)
      · rcases hcase hr' hconf' ht' with ⟨hr₁, ht₁⟩ | ⟨hw', -⟩
        · exact absurd ht₁ (inv.free_seat hsim hi hno ha hl hr₁ hconf')
        · rw [hw, Option.some.injEq] at hw'
          exact hw'

end Steps

/-! ## Whole runs -/

/-- **No double booking.**  Whatever the calls and the interleaving, no seat has junction records of
two confirmed bookings, in any state of a run from tables without bookings in which storage and log
work and every cancellation that has released a seat gets the locks of the others. -/
theorem no_double_booking {db : Db} (hb : db.bookings.rows = []) (hj : db.bookingSeats.rows = [])
    {w : World} (h : Reachable step Steady (World.init db) w) {b b' t : Nat}
    (hconf : w.db.Confirmed b) (hconf' : w.db.Confirmed b') (ht : t ∈ w.db.rowsOf b)
    (ht' : t ∈ w.db.rowsOf b') : b = b' := by
  obtain ⟨s, hsim, inv⟩ := Sim.reachable (I := SafeInv) (fun _ _ h => h.fresh) (safeInv_init hb hj)
    (fun _ _ _ _ hsim hok inv hs => safeInv_step hsim hok.storage hok.locks inv hs) h
  rw [← hsim.db] at hconf hconf' ht ht'
  exact inv.unique b b' t hconf hconf' ht ht'

/-- A booking wins the seats another call is waiting for; a third call finds no memory for its lock. -/
theorem no_double_booking_contended : ∃ w, Reachable step Steady (World.init smallDb) w ∧
    w.db.Confirmed 1 ∧ 1 ∈ w.db.rowsOf 1 ∧
    ∀ b', w.db.Confirmed b' → 1 ∈ w.db.rowsOf b' → 1 = b' := by
  have hrun : (runSteps step World.isSteady (World.init smallDb)
      (.start 0 (.book 7 1 [2, 1]) :: runs 0 9 ++ .start 1 (.book 8 1 [1]) :: runs 0 7 ++
        runs 1 3 ++ .start 2 (.book 9 1 [3]) :: runs 2 3 ++ [starved 2] ++ runs 2 2)).any
      (fun w => w.db.isConfirmed 1 && w.db.rowsOf 1 == [1, 2]) = true := by
    decide +kernel
  obtain ⟨w, hw, hcheck⟩ := (Option.any_eq_true _ _).mp hrun
  rw [Bool.and_eq_true, beq_iff_eq] at hcheck
  have hreach := Reachable.of_runSteps steady_of_isSteady hw
  have hconf := confirmed_of_isConfirmed hcheck.1
  have hrow : 1 ∈ w.db.rowsOf 1 := by rw [hcheck.2]; decide
  exact ⟨w, hreach, hconf, hrow, fun b' hc' hr' => no_double_booking rfl rfl hreach hconf hc' hrow hr'⟩

/-- A cancellation of two seats releases the first and finds no memory for the lock of the second: its
booking stays confirmed, and the first seat is sold again. -/
theorem half_cancelled_seat_sold_twice :
    ¬ ∀ db w, db.bookings.rows = [] → db.bookingSeats.rows = [] →
      (∀ t seat, db.seats.get? t = some seat → seat.status = .available) →
      Reachable step (fun w a => StorageFine a ∧ FreshTxn w a) (World.init db) w →
      ∀ b b' t, w.db.Confirmed b → w.db.Confirmed b' → t ∈ w.db.rowsOf b → t ∈ w.db.rowsOf b' →
        b = b' := by
  intro hall
  have hrun : (runSteps step (fun w a => a.isStorageFine && w.isFresh a) (World.init smallDb)
      (.start 0 (.book 7 1 [2, 1]) :: runs 0 21 ++ .start 1 (.cancel 1 7) :: runs 1 12 ++
        [starved 1] ++ runs 1 4 ++ .start 2 (.book 8 1 [1]) :: runs 2 13)).any
      (fun w => w.db.isConfirmed 1 && w.db.isConfirmed 2 &&
        (w.db.rowsOf 1 == [1, 2] && w.db.rowsOf 2 == [1])) = true := by
    decide +kernel
  obtain ⟨w, hw, hcheck⟩ := (Option.any_eq_true _ _).mp hrun
  simp only [Bool.and_eq_true, beq_iff_eq] at hcheck
  obtain ⟨⟨hfirst, hsecond⟩, hrows, hrows'⟩ := hcheck
  have hreach : Reachable step (fun w a => StorageFine a ∧ FreshTxn w a) (World.init smallDb) w := by
    refine Reachable.of_runSteps ?_ hw
    intro w a h
    rw [Bool.and_eq_true] at h
    exact ⟨storageFine_of_isStorageFine h.1, freshTxn_of_isFresh h.2⟩
  have hsame := hall smallDb w rfl rfl smallDb_available hreach 1 2 1
    (confirmed_of_isConfirmed hfirst) (confirmed_of_isConfirmed hsecond) (by rw [hrows]; decide)
    (by rw [hrows']; decide)
  cases hsame

end Ticketing
