import Ticketing.Core.BookingSafety
import Ticketing.Core.StoredSystem

/-!
# No double booking, read off the pages

What `BookingSafety` shows of the tables of records is true of the bytes that lookups and scans return, in
every state that the engine on disk reaches, restarts included.

* `TableStore.ConfirmedFor`, `ListsSeat`, `TakenBy` — what the calls of the table layer find;
  `StoreShows.confirmedFor_iff` and so on: they find what the tables of records hold.
* `StoredWorld.Stands` — the engine on disk stands like an ideal one with the invariant of `BookingSafety`;
  `Stands.step`, `Stands.restart`, `Stands.next`: it goes on so.
* `stored_no_double_booking` — what readers of the tables see.
-/

set_option autoImplicit false

namespace Ticketing

/-! ## Reading the tables -/

/-- A lookup finds a confirmed booking of the user. -/
def TableStore.ConfirmedFor (s : TableStore) (user b : Nat) : Prop :=
  ∃ s' x, storeFind s .bookings b = some (s', .ok x) ∧
    BookingLayout.status.get x = BookingStatus.code .confirmed ∧ BookingLayout.userId.get x = user

/-- A scan for the junction records of the booking finds one for the seat. -/
def TableStore.ListsSeat (s : TableStore) (b seat : Nat) : Prop :=
  ∃ max s' rows, storeScan s .bookingSeats (fun r => BookingSeatLayout.bookingId.get r == b) max =
    some (s', rows) ∧ seat ∈ rows.map BookingSeatLayout.seatId.get

/-- A lookup finds the seat booked by the user. -/
def TableStore.TakenBy (s : TableStore) (user seat : Nat) : Prop :=
  ∃ s' x, storeFind s .seats seat = some (s', .ok x) ∧ SeatLayout.status.get x = SeatStatus.code .booked ∧
    SeatLayout.bookedBy.get x = user

section Reads

variable {s : TableStore} {L : TableId → OTable Bytes}

/-- Calls that only read need no room. -/
theorem StoreShows.find (h : StoreShows s L) (id : TableId) (key : Nat) :
    ∃ s', storeFind s id key = some (s', ((L id).get? key).elim (.error .errNotFound) .ok) := by
  obtain ⟨recs, T, -, hholds, -, hT⟩ := h.recorded
  obtain ⟨n, hn, hn', hstore⟩ := hholds.store
  obtain ⟨s', hcall, -, -⟩ := @StoreHolds.call n s T hstore hn hn' (id, .find key) trivial
  refine ⟨s', ?_⟩
  unfold storeFind
  rw [hcall, hT id]
  rfl

theorem StoreShows.scan (h : StoreShows s L) (id : TableId) (filter : Bytes → Bool) (max : Nat) :
    ∃ s', storeScan s id filter max = some (s', ((L id).scan filter max).map Prod.snd) := by
  obtain ⟨recs, T, -, hholds, -, hT⟩ := h.recorded
  obtain ⟨n, hn, hn', hstore⟩ := hholds.store
  obtain ⟨s', hcall, -, -⟩ := @StoreHolds.call n s T hstore hn hn' (id, .scan filter max) trivial
  refine ⟨s', ?_⟩
  unfold storeScan
  rw [hcall, hT id]
  rfl

/-- A lookup finds a record with some property if and only if the related table has one with the
corresponding property. -/
theorem StoreShows.find_iff {α : Type} {R : Bytes → α → Prop} {T : OTable α} (h : StoreShows s L)
    {id : TableId} (hT : (L id).Related R T) {p : Bytes → Prop} {q : α → Prop}
    (hpq : ∀ x a, R x a → (p x ↔ q a)) (key : Nat) :
    (∃ s' x, storeFind s id key = some (s', .ok x) ∧ p x) ↔ ∃ a, T.get? key = some a ∧ q a := by
  obtain ⟨s', hfind⟩ := h.find id key
  have hrows := hT.get? key
  rw [hfind]
  generalize (L id).get? key = x at hrows ⊢
  generalize T.get? key = y at hrows ⊢
  cases hrows with
  | none =>
    constructor
    · rintro ⟨_, _, heq, -⟩
      cases heq
    · rintro ⟨_, heq, -⟩
      cases heq
  | @some x a hab =>
    constructor
    · rintro ⟨_, _, heq, hp⟩
      cases heq
      exact ⟨a, rfl, (hpq x a hab).mp hp⟩
    · rintro ⟨_, heq, hq⟩
      cases heq
      exact ⟨s', x, rfl, (hpq x a hab).mpr hq⟩

end Reads

section Fields

variable {x : Bytes} {user : Nat}

theorem BookingShows.confirmed_iff {r : BookingRecord} (h : BookingShows x r) :
    (BookingLayout.status.get x = BookingStatus.code .confirmed ∧ BookingLayout.userId.get x = user) ↔
      r.status = .confirmed ∧ r.userId = user := by
  rw [h.status, h.userId]
  exact and_congr_left fun _ => ⟨BookingStatus.code_injective, congrArg _⟩

theorem SeatShows.booked_iff {seat : SeatRecord} (h : SeatShows x seat) :
    (SeatLayout.status.get x = SeatStatus.code .booked ∧ SeatLayout.bookedBy.get x = user) ↔
      seat.status = .booked ∧ seat.bookedBy = user := by
  rw [h.status, h.bookedBy]
  exact and_congr_left fun _ => ⟨SeatStatus.code_injective, congrArg _⟩

end Fields

section Shows

variable {s : TableStore} {L : TableId → OTable Bytes} {db : Db} {user b seat : Nat}

theorem StoreShows.confirmedFor_iff (h : StoreShows s L) (hdb : DbShows L db) :
    s.ConfirmedFor user b ↔ ∃ r, db.bookings.get? b = some r ∧ r.status = .confirmed ∧ r.userId = user :=
  h.find_iff hdb.bookings (fun _ _ hr => hr.confirmed_iff) b

theorem StoreShows.takenBy_iff (h : StoreShows s L) (hdb : DbShows L db) :
    s.TakenBy user seat ↔ db.SeatBooked user seat :=
  h.find_iff hdb.seats (fun _ _ hr => hr.booked_iff) seat

theorem StoreShows.listsSeat_iff (h : StoreShows s L) (hdb : DbShows L db) :
    s.ListsSeat b seat ↔ seat ∈ db.rowsOf b := by
  have hseats : ∀ max, (((L .bookingSeats).scan (fun r => BookingSeatLayout.bookingId.get r == b) max).map
      Prod.snd).map BookingSeatLayout.seatId.get = (db.rowsOf b).take max := by
    intro max
    rw [seatIds_of_related (hdb.bookingSeats.scan (q := fun r => r.bookingId == b)
      (fun x r hr => by rw [hr.bookingId]) max), OTable.scan, Db.rowsOf, List.map_take, List.map_take,
      List.map_map]
    rfl
  constructor
  · rintro ⟨max, s', rows, hscan, hseat⟩
    obtain ⟨s'', hrows⟩ := h.scan .bookingSeats (fun r => BookingSeatLayout.bookingId.get r == b) max
    rw [hrows, Option.some.injEq, Prod.mk.injEq] at hscan
    rw [← hscan.2, hseats] at hseat
    exact List.mem_of_mem_take hseat
  · intro hseat
    obtain ⟨s', hrows⟩ := h.scan .bookingSeats (fun r => BookingSeatLayout.bookingId.get r == b)
      (db.rowsOf b).length
    refine ⟨_, s', _, hrows, ?_⟩
    rwa [hseats, List.take_length]

/-- What readers find depends on the lists only. -/
theorem StoreShows.reads_eq {s' : TableStore} (h : StoreShows s L) (h' : StoreShows s' L) (hdb : DbShows L db) :
    (s.ConfirmedFor user b ↔ s'.ConfirmedFor user b) ∧ (s.ListsSeat b seat ↔ s'.ListsSeat b seat) ∧
      (s.TakenBy user seat ↔ s'.TakenBy user seat) :=
  ⟨(h.confirmedFor_iff hdb).trans (h'.confirmedFor_iff hdb).symm,
    (h.listsSeat_iff hdb).trans (h'.listsSeat_iff hdb).symm,
    (h.takenBy_iff hdb).trans (h'.takenBy_iff hdb).symm⟩

end Shows

/-! ## Steps and restarts -/

/-- The engine on disk stands like the ideal one, where the invariant holds. -/
def StoredWorld.Stands (w' : StoredWorld) (t : Ideal) : Prop := ∃ w, w'.Shows w ∧ Sim w t ∧ SafeInv t

section Stands

variable {s : TableStore} {L : TableId → OTable Bytes} {w' w₁' : StoredWorld} {w : World} {t : Ideal}

/-- **An orderly restart** works, and leaves the lists and the log. -/
theorem StoreShows.restart (h : StoreShows s L) {n : Nat} (hn : 0 < n ∧ n < 2 ^ 30) {fd : TableId → Int}
    (hfd : Function.Injective fd) :
    ∃ s', s.restart n fd = some s' ∧ StoreShows s' L ∧ s'.wal.file = s.wal.file := by
  obtain ⟨recs, T, hlen, hholds, hdet, hT⟩ := h.recorded
  obtain ⟨n₀, -, -, hstore⟩ := hholds.store
  obtain ⟨s', hrestart, hholds'⟩ := hholds.restart hlen (show TableHistory.Orderly _ (.restart n fd) from
    ⟨hn.1, hn.2, hfd⟩)
  obtain ⟨s₁, hsame, -, -, hindexes⟩ := hstore.restart hholds.stamped hholds.dense hn.1 hn.2 hfd
  obtain rfl := Option.some.inj (hrestart.symm.trans hsame)
  exact ⟨s', hrestart, ⟨fun id => hindexes id (h.indexes id), recs, T, hlen, hholds', hdet, hT⟩,
    hholds'.log.file.trans hholds.log.file.symm⟩

/-- No call is under way here if none is there. -/
theorem StoredWorld.Shows.quiescent (hw : w'.Shows w) (h : w'.AtRest) : w.Quiescent := by
  rintro i ⟨c, pc, hp⟩
  have hproc := hw.procs i
  rw [hp] at hproc
  generalize hp' : w'.procs i = p' at hproc
  cases hproc with
  | running _ _ _ => exact h i _ _ hp'

/-- And none there if none here. -/
theorem StoredWorld.Shows.atRest (hw : w'.Shows w) (h : w.Quiescent) : w'.AtRest := by
  intro i c pc hp'
  have hproc := hw.procs i
  rw [hp'] at hproc
  generalize hp : w.procs i = p at hproc
  cases hproc with
  | running _ _ _ => exact h i ⟨_, _, hp⟩

/-- At rest nothing is in transit. -/
theorem SafeInv.at_rest (inv : SafeInv t) (hrest : ∀ i c pc, t.procs i ≠ .running c pc) {b seat : Nat}
    {r : BookingRecord} (hr : t.db.bookings.get? b = some r) (hconf : r.status = .confirmed)
    (hseat : seat ∈ t.db.rowsOf b) : t.db.SeatBooked r.userId seat := by
  rcases inv.booked b r seat hr hconf hseat with hbooked | ⟨i, c, pc, hp, -⟩
  · exact hbooked
  · exact absurd hp (hrest i c pc)

/-- There the invariant is about the tables alone, and holds for the calls to come. -/
theorem SafeInv.fresh (inv : SafeInv t) (hrest : ∀ i c pc, t.procs i ≠ .running c pc) :
    SafeInv (Ideal.init t.db) :=
  ⟨bookInv_init inv.ids, fun i c pc hp => (by cases hp),
    fun _ _ _ hr hconf hseat => Or.inl (inv.at_rest hrest hr hconf hseat), inv.unique⟩

theorem StoredWorld.Stands.tables (h : w'.Stands t) : ∃ L, StoreShows w'.store L ∧ DbShows L t.db := by
  obtain ⟨w, hw, hsim, -⟩ := h
  rw [hsim.db]
  exact hw.tables

theorem StoredWorld.Stands.procs (h : w'.Stands t) (i : Nat) : ProcShows (w'.procs i) (t.procs i) := by
  obtain ⟨w, hw, hsim, -⟩ := h
  rw [hsim.procs]
  exact hw.procs i

theorem StoredWorld.Stands.inv (h : w'.Stands t) : SafeInv t := by
  obtain ⟨w, -, -, inv⟩ := h
  exact inv

theorem StoredWorld.Stands.atRest (h : w'.Stands t) (hrest : w'.AtRest) (i : Nat) (c : Call) (pc : Pc) :
    t.procs i ≠ .running c pc := by
  obtain ⟨w, hw, hsim, -⟩ := h
  rw [hsim.procs]
  exact fun hp => hw.quiescent hrest i ⟨c, pc, hp⟩

theorem stands_init {db : Db} (hstore : StoreShows s L) (hdb : DbShows L db) (hinit : SafeInv (Ideal.init db)) :
    (StoredWorld.init s).Stands (Ideal.init db) := ⟨_, storedWorld_init hstore hdb, Sim.init db, hinit⟩

/-- **A step** is one of the ideal engine. -/
theorem StoredWorld.Stands.step (h : w'.Stands t) {a : StoredAction} (ha : w'.Orderly a)
    (hs : w'.step a = some w₁') :
    ∃ t₁, w₁'.Stands t₁ ∧ t.Step a.typed t₁ ∧ StorageFine a.typed ∧ w'.store.Grew w₁'.store := by
  obtain ⟨w, hw, hsim, inv⟩ := h
  obtain ⟨hok, hfresh, hlocks⟩ := hw.steady ha
  have hrel := storedWorld_step_alike hw ha.1
  rw [hs] at hrel
  generalize hw₁ : Ticketing.step w a.typed = r at hrel
  obtain ⟨hshows, hgrew⟩ | _ := hrel
  obtain ⟨t₁, hstep, hsim₁⟩ := hsim.step hfresh hw₁
  exact ⟨t₁, ⟨_, hshows, hsim₁, safeInv_step hsim hok hlocks inv hstep⟩, hstep, hok, hgrew⟩

/-- **A restart** leaves the database and the log, without the calls. -/
theorem StoredWorld.Stands.restart (h : w'.Stands t) {n : Nat} {fd : TableId → Int}
    (ha : w'.InOrder (.restart n fd)) (hs : w'.serverStep (.restart n fd) = some w₁') :
    w₁'.Stands (Ideal.init t.db) ∧ w₁'.store.wal.file = w'.store.wal.file := by
  obtain ⟨hrest, hn, hfd⟩ := ha
  obtain ⟨L, hstore, hdb⟩ := h.tables
  obtain ⟨s', hrestart, hopened, hfile⟩ := hstore.restart hn hfd
  rw [StoredWorld.serverStep, hrestart, Option.map_some, Option.some.injEq] at hs
  subst hs
  exact ⟨stands_init hopened hdb (h.inv.fresh (h.atRest hrest)), hfile⟩

/-- **Either of them**: cut before its end, the log gives what it gave before. -/
theorem StoredWorld.Stands.next (h : w'.Stands t) {a : ServerAct} (ha : w'.InOrder a)
    (hs : w'.serverStep a = some w₁') : (∃ t₁, w₁'.Stands t₁) ∧ ∀ k, k < w₁'.store.wal.file.length →
      recoveredData (w₁'.store.wal.file.take k) = recoveredData (w'.store.wal.file.take k) := by
  cases a with
  | run a =>
    obtain ⟨t₁, ht₁, -, -, hgrew⟩ := h.step ha hs
    exact ⟨⟨t₁, ht₁⟩, hgrew.log.cut⟩
  | restart n fd =>
    obtain ⟨ht₁, hfile⟩ := h.restart ha hs
    exact ⟨⟨_, ht₁⟩, fun k _ => by rw [hfile]⟩

/-- **Any run** with any number of restarts. -/
theorem stands_of_reachable {db : Db} (hstore : StoreShows s L) (hdb : DbShows L db)
    (hinit : SafeInv (Ideal.init db))
    (h : Reachable StoredWorld.serverStep StoredWorld.InOrder (StoredWorld.init s) w') : ∃ t, w'.Stands t :=
  Reachable.invariant (I := fun w' : StoredWorld => ∃ t, w'.Stands t) ⟨_, stands_init hstore hdb hinit⟩
    (fun _ _ _ ⟨_, ht⟩ ha hs => (ht.next ha hs).1) h

end Stands

/-! ## Whole runs -/

/-- **No double booking, on disk.**  The tables hold records that show a database without bookings.  Whatever
the calls and the interleaving, in every state that orderly steps and orderly restarts lead to: no two bookings
that a lookup finds confirmed have a seat in common in the junction records that scans find.  While no call is
under way, a lookup of a seat of such a booking finds it booked by the user of the booking; and a restart works
and changes nothing of this. -/
theorem stored_no_double_booking {s : TableStore} {L : TableId → OTable Bytes} {db : Db} (hstore : StoreShows s L)
    (hdb : DbShows L db) (hb : db.bookings.rows = []) (hj : db.bookingSeats.rows = []) {w' : StoredWorld}
    (h : Reachable StoredWorld.serverStep StoredWorld.InOrder (StoredWorld.init s) w') :
    (∀ user user' b b' seat, w'.store.ConfirmedFor user b → w'.store.ConfirmedFor user' b' →
        w'.store.ListsSeat b seat → w'.store.ListsSeat b' seat → b = b') ∧
      (w'.AtRest → ∀ user b seat, w'.store.ConfirmedFor user b → w'.store.ListsSeat b seat →
        w'.store.TakenBy user seat) ∧
      ∀ n fd, 0 < n ∧ n < 2 ^ 30 → Function.Injective fd → ∃ s', w'.store.restart n fd = some s' ∧
        ∀ user b seat, (w'.store.ConfirmedFor user b ↔ s'.ConfirmedFor user b) ∧
          (w'.store.ListsSeat b seat ↔ s'.ListsSeat b seat) ∧ (w'.store.TakenBy user seat ↔ s'.TakenBy user seat) := by
  obtain ⟨t, ht⟩ := stands_of_reachable hstore hdb (safeInv_init hb hj) h
  obtain ⟨L', hstore', hdb'⟩ := ht.tables
  refine ⟨fun user user' b b' seat hc hc' hl hl' => ?_, fun hrest user b seat hc hl => ?_, fun n fd hn hfd => ?_⟩
  · obtain ⟨r, hget, hstatus, -⟩ := (hstore'.confirmedFor_iff hdb').mp hc
    obtain ⟨r', hget', hstatus', -⟩ := (hstore'.confirmedFor_iff hdb').mp hc'
    exact ht.inv.unique b b' seat ⟨r, hget, hstatus⟩ ⟨r', hget', hstatus'⟩ ((hstore'.listsSeat_iff hdb').mp hl)
      ((hstore'.listsSeat_iff hdb').mp hl')
  · obtain ⟨r, hget, hstatus, rfl⟩ := (hstore'.confirmedFor_iff hdb').mp hc
    refine (hstore'.takenBy_iff hdb').mpr ?_
    exact ht.inv.at_rest (ht.atRest hrest) hget hstatus ((hstore'.listsSeat_iff hdb').mp hl)
  · obtain ⟨s', hrestart, hopened, -⟩ := hstore'.restart hn hfd
    exact ⟨s', hrestart, fun user b seat => hstore'.reads_eq hopened hdb'⟩

/-- Two calls want the same seat, one of them gets it, and after a restart the seat is still taken. -/
theorem stored_no_double_booking_small : ∃ w' : StoredWorld, w'.store.ConfirmedFor 7 1 ∧
    w'.store.ListsSeat 1 1 ∧ w'.store.TakenBy 7 1 ∧
    ∀ user b, w'.store.ConfirmedFor user b → w'.store.ListsSeat b 1 → 1 = b := by
  have hcheck : (runSteps step World.isOrderly (World.init smallStoreDb) (smallRun.map StoredAction.typed)).any
      (fun w => w.allDone 2 && (w.db.bookings.get? 1).any (fun r => r.status == .confirmed && r.userId == 7) &&
        w.db.rowsOf 1 == [1, 2]) = true := by
    decide +kernel
  obtain ⟨w', w, hrun', hw, hrun, hend⟩ := smallRun_follows hcheck
  simp only [Bool.and_eq_true] at hend
  obtain ⟨⟨hdone, hbooking⟩, hrows⟩ := hend
  obtain ⟨L, hstore, hdb⟩ := hw.tables
  have hconf : w'.store.ConfirmedFor 7 1 := by
    obtain ⟨r, hget, hr⟩ := (Option.any_eq_true _ _).mp hbooking
    simp only [Bool.and_eq_true, beq_iff_eq] at hr
    exact (hstore.confirmedFor_iff hdb).mpr ⟨r, hget, hr⟩
  have hlists : w'.store.ListsSeat 1 1 := by
    refine (hstore.listsSeat_iff hdb).mpr ?_
    rw [beq_iff_eq.mp hrows]
    decide
  have hrest : w'.AtRest := hw.atRest (quiescent_of_runSteps hrun 2 (by decide +kernel) hdone)
  have hreach : Reachable StoredWorld.serverStep StoredWorld.InOrder (StoredWorld.init smallStore) w' :=
    hrun'.relabel ServerAct.run (fun _ _ ha => ha.1) (fun _ _ _ hs => hs)
  -- the server goes down with the booking, and comes up with it
  obtain ⟨-, -, hrestart⟩ := stored_no_double_booking smallStore_holds.1 smallRows_shows rfl rfl hreach
  obtain ⟨s', hs, hreads⟩ := hrestart 4 fiveFds (by decide) fiveFds_injective
  obtain ⟨hunique, htaken, -⟩ := stored_no_double_booking smallStore_holds.1 smallRows_shows rfl rfl
    (hreach.tail (.restart 4 fiveFds) ⟨hrest, by decide, fiveFds_injective⟩ (congrArg (Option.map _) hs))
  have hconf' := ((hreads 7 1 1).1).mp hconf
  have hlists' := ((hreads 7 1 1).2.1).mp hlists
  exact ⟨StoredWorld.init s', hconf', hlists', htaken (fun i c pc hp => by cases hp) 7 1 1 hconf' hlists',
    fun user b hc hl => hunique 7 user 1 b 1 hconf' hc hlists' hl⟩

end Ticketing
