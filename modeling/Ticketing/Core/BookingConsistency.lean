import Ticketing.Core.BookingSafety

/-!
# Seats and bookings agree at rest

`booking_book_seats` inserts the booking before its junction records and never locks it, and
`booking_cancel` releases the seats of the junction records it finds.  A cancellation that scans
too early therefore misses seats that the booking marks later.

* `Db.Consistent` — the agreement of the three tables.
* `ScanComplete` — a cancellation scans only when every junction record is there.
* `RestInv` — the invariant under that condition; `seats_and_bookings_agree` for whole runs.
-/

set_option autoImplicit false

namespace Ticketing

/-! ## Agreement -/

/-- A seat is booked exactly when it has a junction record of a confirmed booking, that booking is
unique and its user is recorded in the seat, and a confirmed booking has all its junction
records. -/
structure Db.Consistent (db : Db) : Prop where
  booked_iff : ∀ t, (∃ seat, db.seats.get? t = some seat ∧ seat.status = .booked) ↔
    ∃ b, db.Confirmed b ∧ t ∈ db.rowsOf b
  unique : ∀ b b' t, db.Confirmed b → db.Confirmed b' → t ∈ db.rowsOf b → t ∈ db.rowsOf b' → b = b'
  user : ∀ b r t seat, db.bookings.get? b = some r → r.status = .confirmed → t ∈ db.rowsOf b →
    db.seats.get? t = some seat → seat.bookedBy = r.userId
  complete : ∀ b r, db.bookings.get? b = some r → r.status = .confirmed →
    (db.rowsOf b).length = r.seatCount

/-- A cancellation that scans finds as many junction records as its booking has seats. -/
def ScanComplete (w : World) : Action → Prop
  | .start _ _ => True
  | .run i _ => ∀ c txn booking r, w.procs i = .running c (.table txn (.cancelScan booking)) →
      w.db.bookings.get? c.bookingId = some r → (w.db.rowsOf c.bookingId).length = r.seatCount

/-- What a cancellation that has scanned knows: it has seen every junction record. -/
def Scanned (db : Db) (c : Call) (booking : BookingRecord) (rows : List BookingSeatRecord) : Prop :=
  (∀ t ∈ db.rowsOf c.bookingId, t ∈ rows.map BookingSeatRecord.seatId) ∧
    (db.rowsOf c.bookingId).length = booking.seatCount

/-- The same where a call stands. -/
def ScanOk (db : Db) (c : Call) : Pc → Prop
  | .lock _ _ (.cancelSeat booking rows _) => Scanned db c booking rows
  | .table _ (.cancelFindSeat booking rows _) => Scanned db c booking rows
  | .table _ (.cancelUpdateSeat booking rows _ _) => Scanned db c booking rows
  | .table _ (.cancelUpdateBooking booking rows) => Scanned db c booking rows
  | _ => True

/-! ## One step -/

section OwnStep

variable {db db' : Db} {own own' : List LockKey} {c : Call} {env : Env} {free : LockKey → Prop} {full : Prop}
  {txn : UInt32} {pc pc' : Pc} {next : Next} {b t : Nat}

/-- Junction records are added only to a booking that lacks some. -/
theorem rows_grow (hf : env.StorageFine) (h : CallOk db own c pc)
    (hs : IdealStep c env free full db own pc db' own' next) (b : Nat) :
    db'.rowsOf b = db.rowsOf b ∨
      ∃ r, db.bookings.get? b = some r ∧ (db.rowsOf b).length < r.seatCount := by
  cases hs with
  | start hst =>
    obtain ⟨rfl, -⟩ := bookStart_fine hf.1 hst
    exact Or.inl rfl
  | table htab =>
    cases tableStep_effect hf.1 htab with
    | @junction b' i _ =>
      rw [rowsOf_insert]
      split
      · rename_i hb
        subst hb
        obtain ⟨r, hr, -, -, hcount⟩ := h.2.booking
        refine Or.inr ⟨r, hr, ?_⟩
        rw [h.2.rows, hcount, List.length_take]
        exact Nat.lt_of_le_of_lt (Nat.min_le_left _ _) h.1
      · exact Or.inl rfl
    | _ => exact Or.inl rfl
  | _ => exact Or.inl rfl

/-- A call that writes a booking goes on writing it until all its junction records are there. -/
theorem writing_end (hf : env.StorageFine) (h : CallOk db own c pc)
    (hs : IdealStep c env free full db own pc db' own' next) (hw : pc.writing = some b) :
    (∃ pc', next = .goto pc' ∧ pc'.writing = some b) ∨
      (next = .goto (.release own .ok (some b)) ∧ db' = db ∧
        ∀ r, db.bookings.get? b = some r → (db.rowsOf b).length = r.seatCount) := by
  cases hs with
  | table htab =>
    cases tableStep_effect hf.1 htab with
    | junction _ => exact Or.inl ⟨_, rfl, hw⟩
    | seatGone _ hg =>
      obtain ⟨seat, hseat, -⟩ := h.2.pending _ (by rw [drop_seatAt h.1]; exact List.mem_cons_self)
      rw [hg] at hseat
      cases hseat
    | seatFound _ => exact Or.inl ⟨_, rfl, hw⟩
    | seatLost _ hg => rw [h.2.2] at hg; cases hg
    | seatBooked _ =>
      refine Or.inl ⟨_, rfl, ?_⟩
      cases hw
      unfold bookSeatLoop
      split <;> rfl
    | _ => cases hw
  | @commit txn out =>
    cases out with
    | none => cases hw
    | some b' =>
      cases hw
      have hwr : Writing db own c b c.seats.length c.seats.length := h
      obtain ⟨r, hr, -, -, hcount⟩ := hwr.booking
      refine Or.inr ⟨rfl, rfl, ?_⟩
      intro r' hr'
      rw [hr, Option.some.injEq] at hr'
      rw [hwr.rows, List.take_length, ← hr', hcount]
  | commitFail hfail =>
    rw [hf.2.1, hf.2.2] at hfail
    cases hfail
  | _ => cases hw

/-- What a step does to a booking: nothing, insert it, or cancel it. -/
theorem booking_step (hf : env.StorageFine) (hs : IdealStep c env free full db own pc db' own' next) (b : Nat) :
    db'.bookings.get? b = db.bookings.get? b ∨
      (∃ txn evt, b = db.bookings.nextId ∧ pc = .table txn (.bookInsert evt) ∧
        db'.bookings.get? b = some (newBooking c evt env.now) ∧
        ∃ pc', next = .goto pc' ∧ pc'.writing = some b) ∨
      (∃ txn booking rows, b = c.bookingId ∧ pc = .table txn (.cancelUpdateBooking booking rows) ∧
        db'.bookings.get? b = some { booking with status := .cancelled }) := by
  cases hs with
  | start hst =>
    obtain ⟨rfl, -⟩ := bookStart_fine hf.1 hst
    exact Or.inl rfl
  | table htab =>
    cases tableStep_effect hf.1 htab with
    | @inserted evt _ =>
      by_cases hb : b = db.bookings.nextId
      · subst hb
        refine Or.inr (Or.inl ⟨_, evt, rfl, rfl, OTable.get?_insert_self _ _, _, rfl, ?_⟩)
        unfold bookSeatLoop
        split <;> rfl
      · exact Or.inl (OTable.get?_insert_ne hb)
    | @cancelled booking booking' rows hg =>
      by_cases hb : b = c.bookingId
      · subst hb
        exact Or.inr (Or.inr ⟨_, booking, rows, rfl, rfl, OTable.get?_update_self hg⟩)
      · exact Or.inl (OTable.get?_update_ne hb)
    | _ => exact Or.inl rfl
  | _ => exact Or.inl rfl

/-- A seat that is booked after a step was booked before, or its call has just marked it. -/
theorem marked_step (hf : env.StorageFine) (hs : IdealStep c env free full db own pc db' own' next)
    {seat : SeatRecord} (hg : db'.seats.get? t = some seat) (hb : seat.status = .booked) :
    db.seats.get? t = some seat ∨
      ∃ txn b i old, pc = .table txn (.bookUpdateSeat b i old) ∧ t = seatAt c.seats i ∧
        seat.bookedBy = c.userId := by
  cases hs with
  | start hst =>
    obtain ⟨rfl, -⟩ := bookStart_fine hf.1 hst
    exact Or.inl hg
  | table htab =>
    cases tableStep_effect hf.1 htab with
    | @seatBooked b i old old' hg' =>
      by_cases ht : t = seatAt c.seats i
      · subst ht
        rw [OTable.get?_update_self hg', Option.some.injEq] at hg
        exact Or.inr ⟨_, b, i, old, rfl, rfl, by rw [← hg]⟩
      · rw [OTable.get?_update_ne ht] at hg
        exact Or.inl hg
    | @released booking rows i old old' hg' =>
      by_cases ht : t = seatAt (rows.map BookingSeatRecord.seatId) i
      · subst ht
        rw [OTable.get?_update_self hg', Option.some.injEq] at hg
        rw [← hg] at hb
        cases hb
      · rw [OTable.get?_update_ne ht] at hg
        exact Or.inl hg
    | _ => exact Or.inl hg
  | _ => exact Or.inl hg

theorem scanOk_cancelSeatLoop {booking : BookingRecord} {rows : List BookingSeatRecord} {i : Nat}
    (h : Scanned db c booking rows) : ScanOk db c (cancelSeatLoop txn booking rows i) := by
  unfold cancelSeatLoop
  split <;> exact h

theorem scanOk_bookLockLoop (evt : EventRecord) (i : Nat) :
    ScanOk db c (bookLockLoop c evt txn i) := by
  unfold bookLockLoop bookVerifyLoop
  split
  · trivial
  · split <;> trivial

theorem scanOk_afterLock {site : LockSite} {stage : LockStage}
    (h : ScanOk db c (.lock stage txn site)) : ScanOk db c (afterLock c txn site) := by
  cases site with
  | bookSeat evt i => exact scanOk_bookLockLoop evt (i + 1)
  | cancelBooking => trivial
  | cancelSeat booking rows i => exact h

/-- A complete scan sees every junction record of a booking with at most ten of them. -/
theorem scanned_complete (booking : BookingRecord)
    (hlen : (db.rowsOf c.bookingId).length = booking.seatCount)
    (hfew : booking.seatCount ≤ MAX_SEATS_PER_BOOKING) :
    Scanned db c booking (exchangeSort BookingSeatRecord.seatId
      ((db.bookingSeats.scan (fun r => r.bookingId == c.bookingId)
        MAX_SEATS_PER_BOOKING).map Prod.snd)) := by
  refine ⟨?_, hlen⟩
  intro t ht
  have hall : db.bookingSeats.scan (fun r => r.bookingId == c.bookingId) MAX_SEATS_PER_BOOKING =
      db.bookingSeats.rows.filter (fun r => r.2.bookingId == c.bookingId) := by
    refine List.take_of_length_le ?_
    rw [Db.rowsOf, List.length_map] at hlen
    rw [hlen]
    exact hfew
  rw [hall]
  obtain ⟨p, hp, rfl⟩ := List.mem_map.mp ht
  refine List.mem_map_of_mem ?_
  exact (exchangeSort_perm _ _).symm.subset (List.mem_map_of_mem hp)

/-- The own step of a call keeps what it knows of its scan. -/
theorem scanOk_step (hf : env.StorageFine) (h : CallOk db own c pc) (hk : ScanOk db c pc)
    (hfew : ∀ b r, db.bookings.get? b = some r → r.seatCount ≤ MAX_SEATS_PER_BOOKING)
    (hscan : ∀ txn booking, pc = .table txn (.cancelScan booking) →
      (db.rowsOf c.bookingId).length = booking.seatCount)
    (hs : IdealStep c env free full db own pc db' own' (.goto pc')) : ScanOk db' c pc' := by
  generalize hn : Next.goto pc' = next at hs
  cases hs with
  | start hst =>
    obtain ⟨-, hcase⟩ := bookStart_fine hf.1 hst
    subst hn
    rcases hcase with ⟨-, h⟩ | ⟨-, -, h⟩ | ⟨-, evt, -, ⟨-, h⟩ | ⟨-, h⟩⟩
    · cases h
    · cases h
    · cases h
    · injection h with h
      subst h
      trivial
  | beginFull _ => cases hn
  | @begin evt txn =>
    injection hn with hn
    subst hn
    cases evt with
    | none => trivial
    | some evt => exact scanOk_bookLockLoop evt 0
  | held _ => injection hn with hn; subst hn; exact scanOk_afterLock hk
  | refused _ _ => injection hn with hn; subst hn; trivial
  | @check txn site _ => injection hn with hn; subst hn; cases site <;> exact hk
  | noMemory _ => injection hn with hn; subst hn; trivial
  | @acquire txn site _ => injection hn with hn; subst hn; cases site <;> exact hk
  | register => injection hn with hn; subst hn; exact scanOk_afterLock hk
  | table htab =>
    injection hn with hn
    subst hn
    cases tableStep_effect hf.1 htab with
    | verified _ => unfold bookVerifyLoop; split <;> trivial
    | inserted _ => unfold bookSeatLoop; split <;> trivial
    | seatBooked _ => unfold bookSeatLoop; split <;> trivial
    | @scanned booking =>
      have hc : Cancelling db own c booking [] 0 0 := h
      exact scanOk_cancelSeatLoop
        (scanned_complete booking (hscan _ booking rfl) (hfew _ _ hc.found))
    | skipped _ => exact scanOk_cancelSeatLoop hk
    | toRelease _ => exact hk
    | released _ => exact scanOk_cancelSeatLoop hk
    | _ => trivial
  | commitFail _ => injection hn with hn; subst hn; trivial
  | commit => injection hn with hn; subst hn; trivial
  | abort => injection hn with hn; subst hn; trivial
  | unlock => injection hn with hn; subst hn; trivial
  | ret => cases hn

/-- What a call knows of its scan survives steps that leave the junction records alone. -/
theorem ScanOk.stable (h : ScanOk db c pc)
    (hrows : ∀ booking, (db.rowsOf c.bookingId).length = booking.seatCount →
      db.bookings.get? c.bookingId = some booking →
      db'.rowsOf c.bookingId = db.rowsOf c.bookingId)
    (hok : CallOk db own c pc) : ScanOk db' c pc := by
  have key : ∀ booking rows i k, Scanned db c booking rows → Cancelling db own c booking rows i k →
      Scanned db' c booking rows := by
    intro booking rows i k hsc hc
    have heq := hrows booking hsc.2 hc.found
    exact ⟨by rw [heq]; exact hsc.1, by rw [heq]; exact hsc.2⟩
  cases pc with
  | lock stage txn site =>
    cases site with
    | cancelSeat booking rows i => cases stage <;> exact key _ _ _ _ h hok.2
    | _ => trivial
  | table txn ts =>
    cases ts with
    | cancelFindSeat booking rows i => exact key _ _ _ _ h hok.2
    | cancelUpdateSeat booking rows i seat => exact key _ _ _ _ h hok.2.1
    | cancelUpdateBooking booking rows => exact key _ _ _ _ h hok
    | _ => trivial
  | _ => trivial

end OwnStep

/-! ## The invariant -/

/-- The tables agree up to the calls under way: a booked seat has its junction record, a confirmed
booking lacks junction records only while it is written, and no cancellation has missed one. -/
structure RestInv (s : Ideal) : Prop extends SafeInv s where
  marked : ∀ t seat, s.db.seats.get? t = some seat → seat.status = .booked →
    ∃ b r, s.db.bookings.get? b = some r ∧ r.status = .confirmed ∧ t ∈ s.db.rowsOf b ∧
      seat.bookedBy = r.userId
  complete : ∀ b r, s.db.bookings.get? b = some r → r.status = .confirmed →
    (s.db.rowsOf b).length = r.seatCount ∨
      ∃ i c pc, s.procs i = .running c pc ∧ pc.writing = some b
  scans : ∀ i c pc, s.procs i = .running c pc → ScanOk s.db c pc
  confirmed : ∀ i c pc b, s.procs i = .running c pc → pc.writing = some b → s.db.Confirmed b
  few : ∀ b r, s.db.bookings.get? b = some r → r.seatCount ≤ MAX_SEATS_PER_BOOKING

theorem restInv_init {db : Db} (hb : db.bookings.rows = []) (hj : db.bookingSeats.rows = [])
    (ha : ∀ t seat, db.seats.get? t = some seat → seat.status = .available) :
    RestInv (Ideal.init db) := by
  have hnone : ∀ b r, db.bookings.get? b ≠ some r := by
    intro b r hr
    have := OTable.mem_iff.mpr hr
    rw [hb] at this
    cases this
  refine ⟨safeInv_init hb hj, ?_, ?_, ?_, ?_, ?_⟩
  · intro t seat hg hbooked
    rw [ha t seat hg] at hbooked
    cases hbooked
  · intro b r hr
    exact absurd hr (hnone b r)
  · intro i c pc hp
    cases hp
  · intro i c pc b hp
    cases hp
  · intro b r hr
    exact absurd hr (hnone b r)

section Steps

variable {w : World} {s s' : Ideal} {a : Action}

/-- A cancellation about to flip the status has locked every seat of the booking, so nobody is
writing it. -/
theorem RestInv.not_writing (inv : RestInv s) (hsim : Sim w s) {i : Nat} {c : Call} {txn : UInt32}
    {booking : BookingRecord} {rows : List BookingSeatRecord}
    (hi : s.procs i = .running c (.table txn (.cancelUpdateBooking booking rows))) {j : Nat}
    {d : Call} {q : Pc} (hj : s.procs j = .running d q) : q.writing ≠ some c.bookingId := by
  intro hw
  have hc : Cancelling s.db (s.own i) c booking rows rows.length rows.length := inv.calls i c _ hi
  have hsc : Scanned s.db c booking rows := inv.scans i c _ hi
  obtain ⟨k, n, hwr⟩ := (inv.calls j d q hj).writes hw
  obtain ⟨r, hr, -, -, hcount⟩ := hwr.booking
  rw [hc.found, Option.some.injEq] at hr
  have hlen := hsc.2
  rw [hr, hcount, hwr.rows, List.length_take] at hlen
  have hpos := (seats_length hwr.valid).1
  -- all its seats have junction records, and both calls own the lock of the first
  have hfirst : seatAt d.seats 0 ∈ s.db.rowsOf c.bookingId := by
    rw [hwr.rows, List.take_of_length_le (by omega)]
    exact seatAt_mem hpos
  have hmine : seatKey (seatAt d.seats 0) ∈ s.own i := by
    refine hc.seats_locked _ ?_
    rw [List.take_of_length_le (by simp)]
    exact hsc.1 _ hfirst
  have hij := hsim.inv.disjoint j i _ (hwr.locked _ (seatAt_mem hpos)) hmine
  subst hij
  rw [hi, Proc.running.injEq] at hj
  obtain ⟨-, rfl⟩ := hj
  cases hw

section Run

variable {i : Nat} {env : Env} {c : Call} {pc : Pc} {db' : Db} {own' : List LockKey} {next : Next}

theorem RestInv.marked_run (inv : RestInv s) (hf : env.StorageFine) (hi : s.procs i = .running c pc)
    (hstep : IdealStep c env s.Free s.Full s.db (s.own i) pc db' own' next) {t : Nat} {seat : SeatRecord}
    (hg : db'.seats.get? t = some seat) (hbooked : seat.status = .booked) :
    ∃ b r, db'.bookings.get? b = some r ∧ r.status = .confirmed ∧ t ∈ db'.rowsOf b ∧
      seat.bookedBy = r.userId := by
  have hok := inv.calls i c pc hi
  have hkeeps := keeps_step hf hok hstep
  rcases marked_step hf hstep hg hbooked with hg₀ | ⟨txn, b, k, old, rfl, rfl, huser⟩
  · obtain ⟨b, r, hr, hconf, ht, huser⟩ := inv.marked t seat hg₀ hbooked
    rcases booking_step hf hstep b with hsame | ⟨txn, evt, rfl, -, -, -⟩ |
      ⟨txn, booking, rows, rfl, rfl, -⟩
    · exact ⟨b, r, by rw [hsame]; exact hr, hconf, hkeeps.rows b t ht, huser⟩
    · exact absurd (OTable.get?_lt hr) (Nat.lt_irrefl _)
    · -- the cancellation has released every seat of the booking
      have hc : Cancelling s.db (s.own i) c booking rows rows.length rows.length := hok
      have hsc : Scanned s.db c booking rows := inv.scans i c _ hi
      have havail := hc.released t (by rw [List.take_of_length_le (by simp)]; exact hsc.1 t ht)
        seat hg₀
      rw [havail] at hbooked
      cases hbooked
  · obtain ⟨hk, hwr, -⟩ := hok
    obtain ⟨r, hr, hu, -⟩ := hwr.booking
    obtain ⟨r', hr', hconf⟩ := inv.confirmed i c _ b hi rfl
    rw [hr, Option.some.injEq] at hr'
    subst hr'
    have hmem : seatAt c.seats k ∈ s.db.rowsOf b := by
      rw [hwr.rows, take_succ_seatAt hk]
      simp
    rcases booking_step hf hstep b with hsame | ⟨_, _, -, h, -⟩ | ⟨_, _, _, -, h, -⟩
    · exact ⟨b, r, by rw [hsame]; exact hr, hconf, hkeeps.rows b _ hmem, by rw [huser, hu]⟩
    · cases h
    · cases h

theorem RestInv.complete_run (inv : RestInv s) (hf : env.StorageFine) (hi : s.procs i = .running c pc)
    (hstep : IdealStep c env s.Free s.Full s.db (s.own i) pc db' own' next) {b : Nat} {r : BookingRecord}
    (hr : db'.bookings.get? b = some r) (hconf : r.status = .confirmed) :
    (db'.rowsOf b).length = r.seatCount ∨
      ∃ j d q, Function.update s.procs i (next.proc c) j = .running d q ∧ q.writing = some b := by
  have hok := inv.calls i c pc hi
  rcases booking_step hf hstep b with hsame | ⟨txn, evt, -, -, -, pc', rfl, hw⟩ |
    ⟨txn, booking, rows, -, -, hcan⟩
  · rw [hsame] at hr
    rcases inv.complete b r hr hconf with hlen | ⟨j, d, q, hj, hw⟩
    · rcases rows_grow hf hok hstep b with hrows | ⟨r', hr', hlt⟩
      · exact Or.inl (by rw [hrows]; exact hlen)
      · rw [hr, Option.some.injEq] at hr'
        rw [hr'] at hlen
        omega
    · by_cases hji : j = i
      · subst hji
        rw [hi, Proc.running.injEq] at hj
        obtain ⟨rfl, rfl⟩ := hj
        rcases writing_end hf hok hstep hw with ⟨pc', rfl, hw'⟩ | ⟨-, rfl, hlen⟩
        · exact Or.inr ⟨j, c, pc', by simp [Next.proc], hw'⟩
        · exact Or.inl (hlen r hr)
      · exact Or.inr ⟨j, d, q, by simpa only [Function.update_of_ne hji] using hj, hw⟩
  · exact Or.inr ⟨i, c, pc', by simp [Next.proc], hw⟩
  · rw [hcan, Option.some.injEq] at hr
    rw [← hr] at hconf
    cases hconf

theorem RestInv.scans_run (inv : RestInv s) (hf : env.StorageFine) (hi : s.procs i = .running c pc)
    (hscan : ∀ txn booking, pc = .table txn (.cancelScan booking) →
      (s.db.rowsOf c.bookingId).length = booking.seatCount)
    (hstep : IdealStep c env s.Free s.Full s.db (s.own i) pc db' own' next) {j : Nat} {d : Call} {q : Pc}
    (hj : Function.update s.procs i (next.proc c) j = .running d q) : ScanOk db' d q := by
  have hok := inv.calls i c pc hi
  by_cases hji : j = i
  · subst hji
    simp only [Function.update_self] at hj
    cases next with
    | ret rc out => cases hj
    | goto pc' =>
      simp only [Next.proc, Proc.running.injEq] at hj
      obtain ⟨rfl, rfl⟩ := hj
      exact scanOk_step hf hok (inv.scans j c pc hi) inv.few hscan hstep
  · simp only [Function.update_of_ne hji] at hj
    refine (inv.scans j d q hj).stable ?_ (inv.calls j d q hj)
    intro booking hlen hfound
    rcases rows_grow hf hok hstep d.bookingId with hrows | ⟨r, hr, hlt⟩
    · exact hrows
    · rw [hfound, Option.some.injEq] at hr
      rw [hr] at hlen
      omega

/-- A booking being written stays confirmed. -/
theorem RestInv.confirmed_run (inv : RestInv s) (hsim : Sim w s) (hf : env.StorageFine)
    (hi : s.procs i = .running c pc)
    (hstep : IdealStep c env s.Free s.Full s.db (s.own i) pc db' own' next) {j : Nat} {d : Call} {q : Pc}
    {b : Nat} (hj : s.procs j = .running d q) (hw : q.writing = some b) : db'.Confirmed b := by
  obtain ⟨r, hr, hconf⟩ := inv.confirmed j d q b hj hw
  rcases booking_step hf hstep b with hsame | ⟨_, _, rfl, -, -, -⟩ |
    ⟨txn, booking, rows, rfl, rfl, -⟩
  · exact ⟨r, by rw [hsame]; exact hr, hconf⟩
  · exact absurd (OTable.get?_lt hr) (Nat.lt_irrefl _)
  · exact absurd hw (inv.not_writing hsim hi hj)

/-- A booking just inserted is confirmed. -/
theorem BookInv.confirmed_new (inv : BookInv s) (hf : env.StorageFine) (hi : s.procs i = .running c pc)
    {pc' : Pc} (hstep : IdealStep c env s.Free s.Full s.db (s.own i) pc db' own' (.goto pc'))
    (hw : pc'.writing = some s.db.bookings.nextId) : db'.Confirmed s.db.bookings.nextId := by
  have hok := inv.calls i c pc hi
  have hnone : s.db.bookings.get? s.db.bookings.nextId = none := OTable.get?_eq_none (Nat.le_refl _)
  rcases booking_step hf hstep s.db.bookings.nextId with hsame | ⟨_, evt, -, -, hins, -⟩ |
    ⟨_, booking, rows, heq, rfl, -⟩
  · have hok' := callOk_step hf hok (inv.ids _ (Nat.le_refl _)) hstep
    obtain ⟨k, n, hwr⟩ := hok'.writes hw
    obtain ⟨r, hr, -⟩ := hwr.booking
    rw [hsame, hnone] at hr
    cases hr
  · exact ⟨_, hins, rfl⟩
  · have hc : Cancelling s.db (s.own i) c booking rows rows.length rows.length := hok
    rw [heq, hc.found] at hnone
    cases hnone

theorem RestInv.few_run (inv : RestInv s) (hf : env.StorageFine) (hi : s.procs i = .running c pc)
    (hstep : IdealStep c env s.Free s.Full s.db (s.own i) pc db' own' next) {b : Nat} {r : BookingRecord}
    (hr : db'.bookings.get? b = some r) : r.seatCount ≤ MAX_SEATS_PER_BOOKING := by
  have hok := inv.calls i c pc hi
  rcases booking_step hf hstep b with hsame | ⟨_, evt, -, rfl, hins, -⟩ |
    ⟨txn, booking, rows, rfl, rfl, hcan⟩
  · rw [hsame] at hr
    exact inv.few b r hr
  · rw [hins, Option.some.injEq] at hr
    rw [← hr]
    exact (seats_length hok.1).2
  · have hc : Cancelling s.db (s.own i) c booking rows rows.length rows.length := hok
    have hfew := inv.few _ _ hc.found
    rw [hcan, Option.some.injEq] at hr
    rw [← hr]
    exact hfew

end Run

/-- **Steps with working storage and complete scans** keep the invariant, if no cancellation stops
half way. -/
theorem restInv_step (hsim : Sim w s) (hf : StorageFine a) (hlocks : CancelLocks w.procs a)
    (hscan : ScanComplete w a) (inv : RestInv s) (hs : s.Step a s') : RestInv s' := by
  have hsafe := safeInv_step hsim hf hlocks inv.toSafeInv hs
  cases hs with
  | @start i c hi =>
    have hold : ∀ j d q, Function.update s.procs i (.running c c.entry) j = .running d q →
        s.procs j = .running d q ∨ q = d.entry := by
      intro j d q hj
      by_cases hji : j = i
      · subst hji
        simp only [Function.update_self, Proc.running.injEq] at hj
        obtain ⟨rfl, rfl⟩ := hj
        exact Or.inr rfl
      · exact Or.inl (by simpa only [Function.update_of_ne hji] using hj)
    refine ⟨hsafe, inv.marked, ?_, ?_, ?_, inv.few⟩
    · intro b r hr hconf
      refine (inv.complete b r hr hconf).imp id ?_
      rintro ⟨j, d, q, hj, hw⟩
      refine ⟨j, d, q, ?_, hw⟩
      have hji : j ≠ i := by
        rintro rfl
        rw [hi] at hj
        cases hj
      simpa only [Function.update_of_ne hji] using hj
    · intro j d q hj
      rcases hold j d q hj with hj | rfl
      · exact inv.scans j d q hj
      · cases d <;> trivial
    · intro j d q b hj hw
      rcases hold j d q hj with hj | rfl
      · exact inv.confirmed j d q b hj hw
      · cases d <;> cases hw
  | @run i env c pc db' own' next hi hstep =>
    refine ⟨hsafe, ?_, ?_, ?_, ?_, ?_⟩
    · intro t seat hg hbooked
      exact inv.marked_run hf hi hstep hg hbooked
    · intro b r hr hconf
      exact inv.complete_run hf hi hstep hr hconf
    · intro j d q hj
      refine inv.scans_run hf hi ?_ hstep hj
      rintro txn booking rfl
      have hc : Cancelling s.db (s.own i) c booking [] 0 0 := inv.calls i c _ hi
      have hlen := hscan c txn booking booking (by rw [← hsim.procs]; exact hi)
        (by rw [← hsim.db]; exact hc.found)
      rwa [← hsim.db] at hlen
    · intro j d q b hj hw
      by_cases hji : j = i
      · subst hji
        simp only [Function.update_self] at hj
        cases next with
        | ret rc out => cases hj
        | goto pc' =>
          simp only [Next.proc, Proc.running.injEq] at hj
          obtain ⟨rfl, rfl⟩ := hj
          rcases writing_step hf hstep hw with hw₀ | rfl
          · exact inv.confirmed_run hsim hf hi hstep hi hw₀
          · exact inv.toBookInv.confirmed_new hf hi hstep hw
      · simp only [Function.update_of_ne hji] at hj
        exact inv.confirmed_run hsim hf hi hstep hj hw
    · intro b r hr
      exact inv.few_run hf hi hstep hr

end Steps

/-! ## Whole runs -/

theorem RestInv.consistent {s : Ideal} (inv : RestInv s)
    (hq : ∀ i c pc, s.procs i ≠ .running c pc) : s.db.Consistent := by
  have hbooked : ∀ b r t, s.db.bookings.get? b = some r → r.status = .confirmed →
      t ∈ s.db.rowsOf b → s.db.SeatBooked r.userId t := by
    intro b r t hr hconf ht
    rcases inv.booked b r t hr hconf ht with h | ⟨i, c, pc, hp, -⟩
    · exact h
    · exact absurd hp (hq i c pc)
  refine ⟨?_, inv.unique, ?_, ?_⟩
  · intro t
    constructor
    · rintro ⟨seat, hg, hb⟩
      obtain ⟨b, r, hr, hconf, ht, -⟩ := inv.marked t seat hg hb
      exact ⟨b, ⟨r, hr, hconf⟩, ht⟩
    · rintro ⟨b, ⟨r, hr, hconf⟩, ht⟩
      obtain ⟨seat, hg, hb, -⟩ := hbooked b r t hr hconf ht
      exact ⟨seat, hg, hb⟩
  · intro b r t seat hr hconf ht hg
    obtain ⟨seat', hg', -, hu⟩ := hbooked b r t hr hconf ht
    rw [hg, Option.some.injEq] at hg'
    rw [hg', hu]
  · intro b r hr hconf
    rcases inv.complete b r hr hconf with h | ⟨i, c, pc, hp, -⟩
    · exact h
    · exact absurd hp (hq i c pc)

end Ticketing
