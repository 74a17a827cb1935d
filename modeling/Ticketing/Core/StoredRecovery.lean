import Ticketing.Core.BookingAcknowledged
import Ticketing.Core.StoredSafety

/-!
# Bookings after a crash

The log that a run has written, cut after any byte, and what recovery makes of the rest, read as bookings and
seats.

* `LoggedData.ConfirmedFor`, `ListsSeat`, `TakenBy`, `HasBooking` — what the replayed records say.
* `StoreShows.recovered` — folded, the whole log gives what lookups find.
* `Commits`, `RunHolds` — the step in which a call commits its booking, and what is true after any run.
* `crash_no_double_booking` — recovery gives an earlier state of the run, and no double booking.
* `acknowledged_bookings_survive` — every booking acknowledged before the cut is there.
-/

set_option autoImplicit false

namespace Ticketing

/-! ## Reading what recovery gives -/

section Readers

variable (data : LoggedData)

/-- A confirmed booking of the user. -/
def LoggedData.ConfirmedFor (user b : Nat) : Prop :=
  ∃ key x, UInt32.toNat key = b ∧ data (UInt8.ofNat TableId.bookings.code) key = some x ∧
    BookingLayout.status.get x = BookingStatus.code .confirmed ∧ BookingLayout.userId.get x = user

/-- A junction record of the booking for the seat. -/
def LoggedData.ListsSeat (b seat : Nat) : Prop :=
  ∃ key x, data (UInt8.ofNat TableId.bookingSeats.code) key = some x ∧
    BookingSeatLayout.bookingId.get x = b ∧ BookingSeatLayout.seatId.get x = seat

/-- The seat is booked by the user. -/
def LoggedData.TakenBy (user seat : Nat) : Prop :=
  ∃ key x, UInt32.toNat key = seat ∧ data (UInt8.ofNat TableId.seats.code) key = some x ∧
    SeatLayout.status.get x = SeatStatus.code .booked ∧ SeatLayout.bookedBy.get x = user

/-- The booking of the call, and junction records for exactly its seats. -/
def LoggedData.HasBooking (c : Call) (b : Nat) : Prop :=
  (∃ key x, UInt32.toNat key = b ∧ data (UInt8.ofNat TableId.bookings.code) key = some x ∧
    BookingLayout.userId.get x = c.userId ∧ BookingLayout.eventId.get x = c.eventId ∧
    BookingLayout.seatCount.get x = c.seatIds.length) ∧ ∀ seat, data.ListsSeat b seat ↔ seat ∈ c.seatIds

end Readers

/-- Every lookup finds what folding the records of `file` gives. -/
def TableStore.Restored (s : TableStore) (file : Bytes) : Prop :=
  ∀ id (key : UInt32), ∃ s', storeFind s id key.toNat =
    some (s', (recoveredData file (UInt8.ofNat id.code) key).elim (.error .errNotFound) .ok)

section Recovered

variable {s : TableStore} {L : TableId → OTable Bytes} {db : Db} {user b seat : Nat}

/-- **The whole log**, folded, gives the lists. -/
theorem StoreShows.recovered (h : StoreShows s L) (id : TableId) (key : UInt32) :
    recoveredData s.wal.file (UInt8.ofNat id.code) key = (L id).get? key.toNat := by
  obtain ⟨recs, T, hlen, hholds, hdet, hT⟩ := h.recorded
  rw [hholds.log.recovered hlen, hdet id key, hT]

theorem StoreShows.restored (h : StoreShows s L) : s.Restored s.wal.file := by
  intro id key
  rw [h.recovered]
  exact h.find id key.toNat

/-- Ids start from 1 and fit into 32 bits. -/
theorem StoreShows.key_range (h : StoreShows s L) {id : TableId} {key : Nat} {a : Bytes}
    (hget : (L id).get? key = some a) : 0 < key ∧ key < 2 ^ 32 := by
  obtain ⟨recs, T, -, hholds, -, hT⟩ := h.recorded
  obtain ⟨n, -, -, hstore⟩ := hholds.store
  rw [hT id] at hget
  have hrow := List.mem_map_of_mem (f := Prod.fst) (OTable.mem_iff.mpr (get?_liveRows.mp hget).1)
  rw [show (T id).rows.map Prod.fst = _ from hholds.dense id, List.mem_range'] at hrow
  obtain ⟨i, hi, hkey⟩ := hrow
  have hnext := (hstore.next id).2
  dsimp only at hkey
  omega

/-- Recovery gives a record with some property if and only if the related table has one with the corresponding
property. -/
theorem StoreShows.recovered_iff {α : Type} {R : Bytes → α → Prop} {T : OTable α} (h : StoreShows s L)
    {id : TableId} (hT : (L id).Related R T) {p : Bytes → Prop} {q : α → Prop}
    (hpq : ∀ x a, R x a → (p x ↔ q a)) (k : Nat) :
    (∃ key x, UInt32.toNat key = k ∧ recoveredData s.wal.file (UInt8.ofNat id.code) key = some x ∧ p x) ↔
      ∃ a, T.get? k = some a ∧ q a := by
  have hrows := hT.get? k
  constructor
  · rintro ⟨key, x, rfl, hx, hp⟩
    rw [h.recovered] at hx
    rw [hx] at hrows
    generalize T.get? key.toNat = y at hrows ⊢
    cases hrows with
    | some hab => exact ⟨_, rfl, (hpq x _ hab).mp hp⟩
  · rintro ⟨a, ha, hq⟩
    rw [ha] at hrows
    generalize hx : (L id).get? k = y at hrows
    cases hrows with
    | @some x _ hab =>
      have hkey : (UInt32.ofNat k).toNat = k := by
        rw [UInt32.toNat_ofNat', Nat.mod_eq_of_lt (h.key_range hx).2]
      exact ⟨UInt32.ofNat k, x, hkey, by rw [h.recovered, hkey, hx], (hpq x a hab).mpr hq⟩

theorem StoreShows.recovered_confirmedFor (h : StoreShows s L) (hdb : DbShows L db) :
    (recoveredData s.wal.file).ConfirmedFor user b ↔
      ∃ r, db.bookings.get? b = some r ∧ r.status = .confirmed ∧ r.userId = user :=
  h.recovered_iff hdb.bookings (fun _ _ hr => hr.confirmed_iff) b

theorem StoreShows.recovered_takenBy (h : StoreShows s L) (hdb : DbShows L db) :
    (recoveredData s.wal.file).TakenBy user seat ↔ db.SeatBooked user seat :=
  h.recovered_iff hdb.seats (fun _ _ hr => hr.booked_iff) seat

theorem mem_rowsOf : seat ∈ db.rowsOf b ↔
    ∃ k r, db.bookingSeats.get? k = some r ∧ r.bookingId = b ∧ r.seatId = seat := by
  simp only [Db.rowsOf, List.mem_map, List.mem_filter, beq_iff_eq]
  constructor
  · rintro ⟨⟨k, r⟩, ⟨hrow, hbooking⟩, hseat⟩
    exact ⟨k, r, OTable.mem_iff.mp hrow, hbooking, hseat⟩
  · rintro ⟨k, r, hget, hbooking, hseat⟩
    exact ⟨(k, r), ⟨OTable.mem_iff.mpr hget, hbooking⟩, hseat⟩

theorem StoreShows.recovered_listsSeat (h : StoreShows s L) (hdb : DbShows L db) :
    (recoveredData s.wal.file).ListsSeat b seat ↔ seat ∈ db.rowsOf b := by
  have hrecord := fun k => h.recovered_iff hdb.bookingSeats
    (p := fun x => BookingSeatLayout.bookingId.get x = b ∧ BookingSeatLayout.seatId.get x = seat)
    (q := fun r => r.bookingId = b ∧ r.seatId = seat) (fun x r hr => by rw [hr.bookingId, hr.seatId]) k
  rw [mem_rowsOf]
  constructor
  · rintro ⟨key, x, hx, hp⟩
    exact ⟨key.toNat, (hrecord key.toNat).mp ⟨key, x, rfl, hx, hp⟩⟩
  · rintro ⟨k, hrow⟩
    obtain ⟨key, x, -, hx, hp⟩ := (hrecord k).mpr hrow
    exact ⟨key, x, hx, hp⟩

end Recovered

/-! ## Commits -/

/-- The step in which the call commits its booking. -/
def Commits (u : Transition StoredWorld ServerAct) (c : Call) (b : Nat) : Prop :=
  ∃ i now lockAlloc txn keys, u.act = .run (.run i now lockAlloc) ∧
    u.before.procs i = .running c (.commit txn (some b)) ∧
    u.after.procs i = .running c (.release keys .ok (some b))

/-- No call asks for the booking to be cancelled. -/
def NeverCancelled (tr : List (Transition StoredWorld ServerAct)) (b : Nat) : Prop :=
  ∀ u ∈ tr, ∀ i user, u.act ≠ .run (.start i (.cancel b user))

section Commit

variable {tm : TxnManager} {wal : Wal} {w' w₁' : StoredWorld} {i : Nat} {now : Int} {lockAlloc : Bool} {c : Call}
  {txn : UInt32} {b : Nat}

/-- A commit that succeeds has flushed the log. -/
theorem txnCommit_flushed (hlsn : wal.nextLsn ≠ INVALID_LSN) {keys : List LockKey}
    (h : (txnCommit tm wal txn .ok .ok).1 = .committed keys) :
    (txnCommit tm wal txn .ok .ok).2.2.flushedLsn = (txnCommit tm wal txn .ok .ok).2.2.nextLsn - 1 := by
  have happend : walLogCommit wal txn (fun _ => .ok) = _ := walAppend_ok wal (.marker .commit txn)
  unfold txnCommit at h ⊢
  cases hfind : findTxnLocked tm txn with
  | none =>
    rw [hfind] at h
    cases h
  | some j =>
    dsimp only
    rw [happend, if_neg hlsn]
    rfl

theorem stored_commit (hp : w'.procs i = .running c (.commit txn (some b)))
    (hlsn : w'.store.wal.nextLsn ≠ INVALID_LSN) (hs : w'.step (.run i now lockAlloc) = some w₁') :
    (∃ keys, w₁'.procs i = .running c (.release keys .ok (some b)) ∧
        w₁'.store.wal.flushedLsn = w₁'.store.wal.nextLsn - 1) ∨
      w₁'.procs i = .done c .errIo none ∨ w₁'.procs i = .running c (.abort txn .errIo) := by
  have hflushed := @txnCommit_flushed w'.tm w'.store.wal txn hlsn
  simp only [StoredWorld.step, hp, storedStep] at hs
  generalize txnCommit w'.tm w'.store.wal txn .ok .ok = r at hs hflushed
  obtain ⟨outcome, tm, wal⟩ := r
  cases outcome with
  | refused =>
    cases hs
    exact Or.inr (Or.inl (Function.update_self _ _ _))
  | failed =>
    cases hs
    exact Or.inr (Or.inr (Function.update_self _ _ _))
  | committed keys =>
    cases hs
    exact Or.inl ⟨keys, Function.update_self _ _ _, hflushed rfl⟩

end Commit

/-! ## Runs -/

/-- After the steps `tr` from `s`: bookings whose commit is among them are kept, and stand unless a call asks to
cancel them. -/
structure RunHolds (s : TableStore) (tr : List (Transition StoredWorld ServerAct)) (w' : StoredWorld)
    (t : Ideal) : Prop where
  stands : w'.Stands t
  log : s.wal.file.length ≤ w'.store.wal.file.length
  logs : ∀ u ∈ tr, s.wal.file.length ≤ u.after.store.wal.file.length
  kept : ∀ u ∈ tr, ∀ c b, Commits u c b → t.Kept c b
  committed : ∀ i c b, (t.procs i).Acknowledges c b →
    ∃ u ∈ tr, Commits u c b ∧ u.after.store.wal.flushedLsn = u.after.store.wal.nextLsn - 1
  standing : ∀ b, b ≠ 0 → NeverCancelled tr b → t.Standing b

section Runs

variable {s : TableStore} {L : TableId → OTable Bytes} {db : Db} {w' w₁' : StoredWorld} {t : Ideal}
  {tr : List (Transition StoredWorld ServerAct)}

theorem runHolds_init (hstore : StoreShows s L) (hdb : DbShows L db) (hb : db.bookings.rows = [])
    (hj : db.bookingSeats.rows = []) : RunHolds s [] (StoredWorld.init s) (Ideal.init db) := by
  refine ⟨stands_init hstore hdb (safeInv_init hb hj), Nat.le_refl _, fun u hu => absurd hu List.not_mem_nil,
    fun u hu => absurd hu List.not_mem_nil, fun i c b hack => hack.elim, fun b _ _ => ⟨fun i d pc hp => (by cases hp),
    fun r hr => ?_⟩⟩
  have hrow := OTable.mem_iff.mpr hr
  rw [show (Ideal.init db).db.bookings.rows = [] from hb] at hrow
  exact absurd hrow List.not_mem_nil

/-- **A step of a call.** -/
theorem RunHolds.step (h : RunHolds s tr w' t) {a : StoredAction} (ha : w'.Orderly a) (hs : w'.step a = some w₁') :
    ∃ t₁, RunHolds s (⟨w', .run a, w₁'⟩ :: tr) w₁' t₁ := by
  obtain ⟨t₁, hstands, hstep, hok, hgrew⟩ := h.stands.step ha hs
  have hlog := Nat.le_trans h.log hgrew.log.length
  refine ⟨t₁, hstands, hlog, List.forall_mem_cons.mpr ⟨hlog, h.logs⟩, List.forall_mem_cons.mpr ⟨?_, ?_⟩, ?_, ?_⟩
  · rintro c b ⟨i, now, lockAlloc, txn, keys, hact, hbefore, -⟩
    cases hact
    have hproc := h.stands.procs i
    rw [show w'.procs i = _ from hbefore] at hproc
    generalize hp : t.procs i = p at hproc
    cases hproc with
    | running _ _ hpc =>
      cases hpc with
      | commit _ _ => exact kept_commit h.stands.inv.toBookInv hp hok hstep
  · exact fun u hu c b hcommits => (h.kept u hu c b hcommits).step h.stands.inv.toBookInv hok hstep
  · intro i c b hack
    rcases acknowledges_step hok hstep hack with hold | ⟨env, txn, hact, hp⟩
    · obtain ⟨u, hu, hcommits⟩ := h.committed i c b hold
      exact ⟨u, List.mem_cons_of_mem _ hu, hcommits⟩
    · cases a with
      | start j d => cases hact
      | run j now lockAlloc =>
        obtain rfl : j = i := by
          injection hact
        have hproc := h.stands.procs j
        rw [hp] at hproc
        generalize hp' : w'.procs j = p' at hproc
        have hproc₁ := hstands.procs j
        obtain ⟨L', hstore, -⟩ := h.stands.tables
        cases hproc with
        | running _ _ hpc =>
          cases hpc with
          | commit _ _ =>
            rcases stored_commit hp' hstore.lsn hs with ⟨keys, hafter, hflushed⟩ | hdone | habort
            · exact ⟨_, List.mem_cons_self, ⟨j, now, lockAlloc, txn, keys, rfl, hp', hafter⟩, hflushed⟩
            · -- no id is returned
              rw [hdone] at hproc₁
              generalize t₁.procs j = p at hproc₁ hack
              cases hproc₁
              cases hack.2
            · rw [habort] at hproc₁
              generalize t₁.procs j = p at hproc₁ hack
              cases hproc₁ with
              | running _ _ hpc =>
                cases hpc
                cases hack.2
  · intro b hb hnever
    obtain ⟨hnow, hbefore⟩ := List.forall_mem_cons.mp hnever
    refine (h.standing b hb hbefore).step hok (fun i d hact => ?_) hstep
    cases a with
    | run j now lockAlloc => cases hact
    | start j e =>
      cases hact
      cases d with
      | book _ _ _ => exact hb.symm
      | cancel b' user =>
        rintro rfl
        exact hnow i user rfl

/-- **A restart.** -/
theorem RunHolds.restart (h : RunHolds s tr w' t) {n : Nat} {fd : TableId → Int}
    (ha : w'.InOrder (.restart n fd)) (hs : w'.serverStep (.restart n fd) = some w₁') :
    RunHolds s (⟨w', .restart n fd, w₁'⟩ :: tr) w₁' (Ideal.init t.db) := by
  obtain ⟨hstands, hfile⟩ := h.stands.restart ha hs
  have hlog : s.wal.file.length ≤ w₁'.store.wal.file.length := by
    rw [hfile]
    exact h.log
  refine ⟨hstands, hlog, List.forall_mem_cons.mpr ⟨hlog, h.logs⟩, List.forall_mem_cons.mpr ⟨?_, ?_⟩,
    fun i c b hack => hack.elim, ?_⟩
  · rintro c b ⟨i, now, lockAlloc, txn, keys, hact, -⟩
    cases hact
  · intro u hu c b hcommits
    obtain ⟨hbooking, hrows, -⟩ := h.kept u hu c b hcommits
    exact ⟨hbooking, hrows, fun i d pc hp => by cases hp⟩
  · intro b hb hnever
    exact ⟨fun i d pc hp => (by cases hp), (h.standing b hb (List.forall_mem_cons.mp hnever).2).confirmed⟩

/-- **Any run.** -/
theorem runHolds (hstore : StoreShows s L) (hdb : DbShows L db) (hb : db.bookings.rows = [])
    (hj : db.bookingSeats.rows = []) (hist : History StoredWorld.serverStep (StoredWorld.init s) tr w') :
    (∀ u ∈ tr, u.before.InOrder u.act) → ∃ t, RunHolds s tr w' t := by
  refine History.invariant (I := fun tr w' => (∀ u ∈ tr, u.before.InOrder u.act) → ∃ t, RunHolds s tr w' t)
    (fun _ => ⟨_, runHolds_init hstore hdb hb hj⟩) (fun tr w' a w₁' ih hs hok => ?_) hist
  obtain ⟨ha, hbefore⟩ := List.forall_mem_cons.mp hok
  obtain ⟨t, h⟩ := ih hbefore
  cases a with
  | run a => exact h.step ha hs
  | restart n fd => exact ⟨_, h.restart ha hs⟩

/-- **The log cut at any byte** gives what the whole log gave after an earlier step. -/
theorem run_cut (hstore : StoreShows s L) (hdb : DbShows L db) (hb : db.bookings.rows = [])
    (hj : db.bookingSeats.rows = []) (hist : History StoredWorld.serverStep (StoredWorld.init s) tr w')
    (hok : ∀ u ∈ tr, u.before.InOrder u.act) {k : Nat} (hk : s.wal.file.length ≤ k) :
    ∃ later tr₀ w₀ t₀, tr = later ++ tr₀ ∧ History StoredWorld.serverStep (StoredWorld.init s) tr₀ w₀ ∧
      w₀.store.wal.file.length ≤ k ∧ (∀ u ∈ later, k < u.after.store.wal.file.length) ∧ RunHolds s tr₀ w₀ t₀ ∧
      recoveredData (w'.store.wal.file.take k) = recoveredData w₀.store.wal.file := by
  obtain ⟨-, later, tr₀, w₀, htr, hist₀, -, hlow, hhigh, hread⟩ :=
    History.cut (fun v : StoredWorld => v.store.wal.file) recoveredData
      (I := fun v : StoredWorld => ∃ t, v.Stands t) ⟨_, stands_init hstore hdb (safeInv_init hb hj)⟩ hk
      (fun _ _ _ ⟨_, ht⟩ ha hs => (ht.next ha hs).imp id fun hcut => hcut k) hist hok
  obtain ⟨t₀, h₀⟩ := runHolds hstore hdb hb hj hist₀ fun u hu => hok u (htr ▸ List.mem_append_right later hu)
  exact ⟨later, tr₀, w₀, t₀, htr, hist₀, hlow, hhigh, h₀, hread⟩

/-- **A crash makes no double booking.**  Whatever the calls, the interleaving and the restarts, cut the log
after any byte that the run has written: folding what `wal_recover` replays gives what lookups found after one
of the steps, the last one whose log had been written up to the cut.  No two bookings that it gives as confirmed
have a seat in common in the junction records it gives; and if no call was under way after that step, every seat
of such a booking is booked by its user. -/
theorem crash_no_double_booking (hstore : StoreShows s L) (hdb : DbShows L db) (hb : db.bookings.rows = [])
    (hj : db.bookingSeats.rows = []) (hist : History StoredWorld.serverStep (StoredWorld.init s) tr w')
    (hok : ∀ u ∈ tr, u.before.InOrder u.act) {k : Nat} (hk : s.wal.file.length ≤ k) :
    ∃ later tr₀ w₀, tr = later ++ tr₀ ∧ History StoredWorld.serverStep (StoredWorld.init s) tr₀ w₀ ∧
      w₀.store.wal.file.length ≤ k ∧ (∀ u ∈ later, k < u.after.store.wal.file.length) ∧
      w₀.store.Restored (w'.store.wal.file.take k) ∧
      (∀ user user' b b' seat, (recoveredData (w'.store.wal.file.take k)).ConfirmedFor user b →
        (recoveredData (w'.store.wal.file.take k)).ConfirmedFor user' b' →
        (recoveredData (w'.store.wal.file.take k)).ListsSeat b seat →
        (recoveredData (w'.store.wal.file.take k)).ListsSeat b' seat → b = b') ∧
      (w₀.AtRest → ∀ user b seat, (recoveredData (w'.store.wal.file.take k)).ConfirmedFor user b →
        (recoveredData (w'.store.wal.file.take k)).ListsSeat b seat →
        (recoveredData (w'.store.wal.file.take k)).TakenBy user seat) := by
  obtain ⟨later, tr₀, w₀, t₀, htr, hist₀, hlow, hhigh, h₀, hread⟩ := run_cut hstore hdb hb hj hist hok hk
  obtain ⟨L', hstore', hdb'⟩ := h₀.stands.tables
  have inv := h₀.stands.inv
  refine ⟨later, tr₀, w₀, htr, hist₀, hlow, hhigh, fun id key => ?_, ?_⟩
  · rw [hread]
    exact hstore'.restored id key
  · rw [hread]
    refine ⟨fun user user' b b' seat hc hc' hl hl' => ?_, fun hrest user b seat hc hl => ?_⟩
    · obtain ⟨r, hget, hstatus, -⟩ := (hstore'.recovered_confirmedFor hdb').mp hc
      obtain ⟨r', hget', hstatus', -⟩ := (hstore'.recovered_confirmedFor hdb').mp hc'
      exact inv.unique b b' seat ⟨r, hget, hstatus⟩ ⟨r', hget', hstatus'⟩
        ((hstore'.recovered_listsSeat hdb').mp hl) ((hstore'.recovered_listsSeat hdb').mp hl')
    · obtain ⟨r, hget, hstatus, rfl⟩ := (hstore'.recovered_confirmedFor hdb').mp hc
      exact (hstore'.recovered_takenBy hdb').mpr (inv.at_rest (h₀.stands.atRest hrest) hget hstatus
        ((hstore'.recovered_listsSeat hdb').mp hl))

/-- A run in which the first of two calls for a seat books it. -/
theorem small_history : ∃ tr w', History StoredWorld.serverStep (StoredWorld.init smallStore) tr w' ∧
    (∀ u ∈ tr, u.before.InOrder u.act) ∧ NeverCancelled tr 1 ∧
    w'.procs 0 = .done (.book 7 1 [2, 1]) .ok (some 1) := by
  have hcheck : (runSteps step World.isOrderly (World.init smallStoreDb) (smallRun.map StoredAction.typed)).any
      (fun w => w.hasReturned 0 (.book 7 1 [2, 1]) .ok (some 1)) = true := by
    decide +kernel
  obtain ⟨w', w, hrun, hw, -, hreturned⟩ := smallRun_follows hcheck
  have hreach : Reachable StoredWorld.serverStep
      (fun v a => v.InOrder a ∧ ∀ i user, a ≠ .run (.start i (.cancel 1 user))) (StoredWorld.init smallStore) w' := by
    refine hrun.relabel ServerAct.run (fun v a ha => ⟨ha.1, fun i user heq => ?_⟩) (fun _ _ _ hs => hs)
    obtain rfl := ServerAct.run.inj heq
    have hmem := ha.2
    simp [smallRun] at hmem
  obtain ⟨tr, hist, hok⟩ := hreach.history
  exact ⟨tr, w', hist, fun u hu => (hok u hu).1, fun u hu => (hok u hu).2, hw.done hreturned⟩

/-- Wherever the log of that run is cut. -/
theorem crash_no_double_booking_small : ∃ tr w',
    History StoredWorld.serverStep (StoredWorld.init smallStore) tr w' ∧
    w'.procs 0 = .done (.book 7 1 [2, 1]) .ok (some 1) ∧ ∀ k, smallStore.wal.file.length ≤ k →
      ∀ b b' seat, (recoveredData (w'.store.wal.file.take k)).ConfirmedFor 7 b →
        (recoveredData (w'.store.wal.file.take k)).ConfirmedFor 8 b' →
        (recoveredData (w'.store.wal.file.take k)).ListsSeat b seat →
        (recoveredData (w'.store.wal.file.take k)).ListsSeat b' seat → b = b' := by
  obtain ⟨tr, w', hist, hok, -, hdone⟩ := small_history
  refine ⟨tr, w', hist, hdone, fun k hk => ?_⟩
  obtain ⟨-, -, -, -, -, -, -, -, hunique, -⟩ :=
    crash_no_double_booking smallStore_holds.1 smallRows_shows rfl rfl hist hok hk
  exact hunique 7 8

/-- **Acknowledged bookings survive.**  A call has returned the id of its booking in some state of a run.  Before
that is the step in which it committed, and the log was flushed to its end there.  Whatever else has happened since
and however the log is cut behind that point, recovery gives the booking with its user, event and number of
seats, and junction records for exactly the seats of the call; and if nobody has asked to cancel the booking, it is
confirmed and all its seats are booked by its user. -/
theorem acknowledged_bookings_survive (hstore : StoreShows s L) (hdb : DbShows L db)
    (hb : db.bookings.rows = []) (hj : db.bookingSeats.rows = [])
    (hist : History StoredWorld.serverStep (StoredWorld.init s) tr w') (hok : ∀ u ∈ tr, u.before.InOrder u.act)
    {later tr₁ : List (Transition StoredWorld ServerAct)} {u₁ : Transition StoredWorld ServerAct}
    (htr : tr = later ++ u₁ :: tr₁) {i : Nat} {c : Call} {rc : EtpResult} {b : Nat}
    (hdone : u₁.after.procs i = .done c rc (some b)) :
    ∃ u ∈ u₁ :: tr₁, Commits u c b ∧ u.after.store.wal.flushedLsn = u.after.store.wal.nextLsn - 1 ∧
      ∀ k, u.after.store.wal.file.length ≤ k →
        (recoveredData (w'.store.wal.file.take k)).HasBooking c b ∧
          (NeverCancelled tr b → (recoveredData (w'.store.wal.file.take k)).ConfirmedFor c.userId b ∧
            ∀ seat ∈ c.seatIds, (recoveredData (w'.store.wal.file.take k)).TakenBy c.userId seat) := by
  subst htr
  obtain ⟨w₁, hist₁⟩ := hist.earlier
  have hafter : w₁ = u₁.after := by
    cases hist₁
    rfl
  obtain ⟨t₁, h₁⟩ := runHolds hstore hdb hb hj hist₁ fun u hu => hok u (List.mem_append_right later hu)
  have hack : (t₁.procs i).Acknowledges c b := by
    have hproc := h₁.stands.procs i
    rw [hafter, hdone] at hproc
    generalize t₁.procs i = p at hproc ⊢
    cases hproc
    exact ⟨rfl, rfl⟩
  obtain ⟨u, hu, hcommits, hflushed⟩ := h₁.committed i c b hack
  refine ⟨u, hu, hcommits, hflushed, fun k hk => ?_⟩
  -- the cut is behind the commit, so the state that recovery gives is
  obtain ⟨later₀, tr₀, w₀, t₀, htr, -, -, hhigh, h₀, hread⟩ :=
    run_cut hstore hdb hb hj hist hok (Nat.le_trans (h₁.logs u hu) hk)
  have hu₀ : u ∈ tr₀ := by
    have hmem := List.mem_append_right later hu
    rw [htr] at hmem
    rcases List.mem_append.mp hmem with hlate | hearly
    · exact absurd (hhigh u hlate) (Nat.not_lt.mpr hk)
    · exact hearly
  have hkept := h₀.kept u hu₀ c b hcommits
  obtain ⟨L', hstore', hdb'⟩ := h₀.stands.tables
  rw [hread]
  obtain ⟨r, hr, huser, hevent, hcount⟩ := hkept.booking
  refine ⟨⟨?_, fun seat => ?_⟩, fun hnever => ?_⟩
  · refine (hstore'.recovered_iff hdb'.bookings (p := fun x => BookingLayout.userId.get x = c.userId ∧
      BookingLayout.eventId.get x = c.eventId ∧ BookingLayout.seatCount.get x = c.seatIds.length)
      (q := fun r => r.userId = c.userId ∧ r.eventId = c.eventId ∧ r.seatCount = c.seatIds.length)
      (fun x r hr => by rw [hr.userId, hr.eventId, hr.seatCount]) b).mpr ⟨r, hr, huser, hevent, ?_⟩
    rw [hcount, c.length_seats]
  · rw [hstore'.recovered_listsSeat hdb', hkept.rows]
    exact (exchangeSort_perm _ _).mem_iff
  · have hpos : b ≠ 0 := by
      have hrow := hdb'.bookings.get? b
      rw [hr] at hrow
      generalize hx : (L' .bookings).get? b = x at hrow
      cases hrow with
      | some _ => exact Nat.ne_of_gt (hstore'.key_range hx).1
    have hstands := h₀.standing b hpos fun u hu => hnever u (htr ▸ List.mem_append_right later₀ hu)
    obtain ⟨⟨r', hr', hconf⟩, hseats⟩ := hkept.seats h₀.stands.inv hstands
    refine ⟨(hstore'.recovered_confirmedFor hdb').mpr ⟨r, hr, hstands.confirmed r hr, huser⟩, fun seat hseat => ?_⟩
    exact (hstore'.recovered_takenBy hdb').mpr (hseats seat ((exchangeSort_perm _ _).mem_iff.mpr hseat))

/-- The booking of that run is in its log. -/
theorem acknowledged_bookings_survive_small : ∃ tr w',
    History StoredWorld.serverStep (StoredWorld.init smallStore) tr w' ∧
    (recoveredData w'.store.wal.file).ConfirmedFor 7 1 ∧ (recoveredData w'.store.wal.file).TakenBy 7 1 ∧
    (recoveredData w'.store.wal.file).TakenBy 7 2 := by
  obtain ⟨tr, w', hist, hok, hnever, hdone⟩ := small_history
  refine ⟨tr, w', hist, ?_⟩
  cases tr with
  | nil =>
    cases hist
    cases hdone
  | cons u₁ tr =>
    have hafter : w' = u₁.after := by
      cases hist
      rfl
    obtain ⟨u, -, -, -, hall⟩ := acknowledged_bookings_survive smallStore_holds.1 smallRows_shows rfl rfl hist hok
      (List.nil_append _).symm (hafter ▸ hdone)
    obtain ⟨-, hstands⟩ := hall _ (Nat.le_max_left _ w'.store.wal.file.length)
    rw [List.take_of_length_le (Nat.le_max_right _ _)] at hstands
    obtain ⟨hconf, hseats⟩ := hstands hnever
    exact ⟨hconf, hseats 1 (by decide), hseats 2 (by decide)⟩

end Runs

end Ticketing
