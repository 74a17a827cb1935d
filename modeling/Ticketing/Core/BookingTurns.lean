import Ticketing.Core.BookingConsistency
import Ticketing.Core.BookingSequential

/-!
# One call at a time

A call that runs to its end while no other is under way is a run of the concurrent system in which
only one call moves.  Its transaction id is fresh, and a cancellation finds every junction record of
its booking, so the invariant of such runs holds again when it returns.

* `Db.RowsOfEvent` — the junction records of a confirmed booking name different seats of its event.
* `Turn`, `turn_step` — one step of the only call under way.
* `Rested`, `Rested.call` — between two calls; `Rested.tables` for changes made by others.
-/

set_option autoImplicit false

namespace Ticketing

/-! ## Seats and their events -/

/-- The junction records of a confirmed booking name different seats of its event. -/
structure Db.RowsOfEvent (db : Db) : Prop where
  event : ∀ b r t seat, db.bookings.get? b = some r → r.status = .confirmed → t ∈ db.rowsOf b →
    db.seats.get? t = some seat → seat.eventId = r.eventId
  nodup : ∀ b, (db.rowsOf b).Nodup

/-- The event of every seat. -/
def Db.seatEvents (db : Db) : OTable Nat := db.seats.map SeatRecord.eventId

section OwnStep

variable {db db' : Db} {own own' : List LockKey} {c : Call} {env : Env} {free : LockKey → Prop}
  {full : Prop} {pc : Pc} {next : Next}

/-- No step moves a seat to another event. -/
theorem seatEvents_step (hf : env.StorageFine) (h : CallOk db own c pc)
    (hs : IdealStep c env free full db own pc db' own' next) : db'.seatEvents = db.seatEvents := by
  cases hs with
  | start hst =>
    obtain ⟨rfl, -⟩ := bookStart_fine hf.1 hst
    rfl
  | table ht =>
    cases tableStep_effect hf.1 ht with
    | @seatBooked b i seat seat' hg =>
      apply OTable.map_update hg
      rw [h.2.2, Option.some.injEq] at hg
      rw [hg]
    | @released booking rows i seat seat' hg =>
      apply OTable.map_update hg
      rw [h.2.2, Option.some.injEq] at hg
      rw [hg]
    | _ => rfl
  | _ => rfl

/-- The seats of one table are in the events of another. -/
theorem Db.RowsOfEvent.of_seatEvents (h : db.RowsOfEvent) (hseats : db'.seatEvents = db.seatEvents)
    {b : Nat} {r : BookingRecord} {t : Nat} {seat : SeatRecord} (hr : db.bookings.get? b = some r)
    (hconf : r.status = .confirmed) (ht : t ∈ db.rowsOf b) (hg : db'.seats.get? t = some seat) :
    seat.eventId = r.eventId := by
  have hevent : db'.seatEvents.get? t = some seat.eventId := by
    rw [Db.seatEvents, OTable.get?_map, hg]
    rfl
  rw [hseats, Db.seatEvents, OTable.get?_map] at hevent
  obtain ⟨seat₀, hg₀, heq⟩ := Option.map_eq_some_iff.mp hevent
  rw [← heq]
  exact h.event b r t seat₀ hr hconf ht hg₀

theorem rowsOfEvent_step (hf : env.StorageFine) (h : CallOk db own c pc)
    (hnew : db.rowsOf db.bookings.nextId = []) (inv : db.RowsOfEvent)
    (hs : IdealStep c env free full db own pc db' own' next) : db'.RowsOfEvent := by
  have hseats := seatEvents_step hf h hs
  cases hs with
  | start hst =>
    obtain ⟨rfl, -⟩ := bookStart_fine hf.1 hst
    exact inv
  | table ht =>
    cases tableStep_effect hf.1 ht with
    | inserted _ =>
      refine ⟨fun b r t seat hr hconf ht hg => ?_, inv.nodup⟩
      rcases eq_or_ne b db.bookings.nextId with rfl | hne
      · -- nothing has been written for the new booking yet
        have hnil : db.rowsOf db.bookings.nextId = [] := hnew
        exact absurd ht (by show t ∉ db.rowsOf _; rw [hnil]; exact List.not_mem_nil)
      · rw [OTable.get?_insert_ne hne] at hr
        exact inv.event b r t seat hr hconf ht hg
    | @junction b i _ =>
      have hwr := h.2
      refine ⟨fun b' r t seat hr hconf ht hg => ?_, fun b' => ?_⟩
      · rw [rowsOf_insert] at ht
        split at ht
        · rename_i hb
          subst hb
          rcases List.mem_append.mp ht with ht | ht
          · exact inv.event b r t seat hr hconf ht hg
          · -- the seat was verified for the event that is being booked
            rw [List.mem_singleton] at ht
            subst ht
            obtain ⟨seat', hg', hevent, -⟩ :=
              hwr.pending _ (by rw [drop_seatAt h.1]; exact List.mem_cons_self)
            obtain ⟨r', hr', -, hevent', -⟩ := hwr.booking
            rw [hg, Option.some.injEq] at hg'
            rw [hr, Option.some.injEq] at hr'
            rw [hg', hevent, hr', hevent']
        · exact inv.event b' r t seat hr hconf ht hg
      · rw [rowsOf_insert]
        split
        · rename_i hb
          subst hb
          show (db.rowsOf b ++ [seatAt c.seats i]).Nodup
          rw [hwr.rows, ← take_succ_seatAt h.1]
          exact (seats_nodup hwr.valid).sublist (List.take_sublist _ _)
        · exact inv.nodup b'
    | seatBooked _ =>
      exact ⟨fun b r t seat hr hconf ht hg => inv.of_seatEvents hseats hr hconf ht hg, inv.nodup⟩
    | released _ =>
      exact ⟨fun b r t seat hr hconf ht hg => inv.of_seatEvents hseats hr hconf ht hg, inv.nodup⟩
    | @cancelled booking _ rows hg =>
      refine ⟨fun b r t seat hr hconf ht hg' => ?_, inv.nodup⟩
      rcases eq_or_ne b c.bookingId with rfl | hne
      · rw [OTable.get?_update_self hg, Option.some.injEq] at hr
        rw [← hr] at hconf
        cases hconf
      · rw [OTable.get?_update_ne hne] at hr
        exact inv.event b r t seat hr hconf ht hg'
    | _ => exact inv
  | _ => exact inv

end OwnStep

/-! ## The only call under way -/

/-- Call 0 is the only one under way, and the tables agree up to it. -/
structure Turn (w : World) (s : Ideal) : Prop where
  sim : Sim w s
  inv : RestInv s
  rows : s.db.RowsOfEvent
  alone : ∀ j, j ≠ 0 → w.procs j = .idle

section Steps

variable {w : World} {s : Ideal} {c : Call} {pc : Pc} {now : Int}

/-- A step in which storage and log work. -/
theorem callEnv_storageFine {f : EngineFault} (hf : f.StorageFine) (c : Call) (sh : Shared) (pc : Pc)
    (now : Int) : (callEnv c sh pc now f).StorageFine := by
  refine ⟨?_, hf.2.1, hf.2.2⟩
  unfold callEnv
  rw [hf.1]

/-- No transaction is active when the only call under way begins its own. -/
theorem Turn.fresh (h : Turn w s) (env : Env) : FreshTxn w (.run 0 env) := by
  rintro c evt hp - ⟨n, t, ht, hid⟩
  obtain ⟨j, hj⟩ := h.sim.inv.slot_call n t ht
  by_cases hj0 : j = 0
  · rw [hj0, hp] at hj
    cases hj
  · rw [h.alone j hj0] at hj
    cases hj

/-- Nobody is writing the booking that the only call under way cancels. -/
theorem Turn.scanComplete (h : Turn w s) (env : Env) : ScanComplete w (.run 0 env) := by
  intro c txn booking r hp hr
  have hp' : s.procs 0 = .running c (.table txn (.cancelScan booking)) := by
    rw [h.sim.procs]
    exact hp
  have hc : Cancelling s.db (s.own 0) c booking [] 0 0 := h.inv.calls 0 c _ hp'
  rw [← h.sim.db, hc.found, Option.some.injEq] at hr
  rw [← h.sim.db]
  rcases h.inv.complete _ _ hc.found hc.confirmed with hlen | ⟨j, d, q, hj, hw⟩
  · rw [hlen, hr]
  · by_cases hj0 : j = 0
    · rw [hj0, hp', Proc.running.injEq] at hj
      rw [← hj.2] at hw
      cases hw
    · rw [h.sim.procs, h.alone j hj0] at hj
      cases hj

/-- Only a cancellation locks the seats of junction records. -/
theorem Turn.cancelLocks (hi : w.procs 0 = .running c pc) (hk : Knows c w.db.bookings pc) {env : Env}
    (hmem : c.isCancel = true → env.lockAlloc = true) : CancelLocks w.procs (.run 0 env) := by
  intro d txn booking rows k hp _
  rw [hi, Proc.running.injEq] at hp
  obtain ⟨rfl, rfl⟩ := hp
  exact hmem (hk.kind true rfl)

/-- **One step of the only call under way.** -/
theorem turn_step (h : Turn w s) (hi : w.procs 0 = .running c pc) (hk : Knows c w.db.bookings pc)
    {f : EngineFault} (hfor : f.FineFor c) {sh : Shared} {next : Next}
    (hpc : pcStep c (callEnv c w.toShared pc now f) w.toShared pc = some (sh, next)) :
    ∃ s', Turn ⟨sh, Function.update w.procs 0 (next.proc c)⟩ s' ∧ s'.db.events = s.db.events ∧
      s'.db.seatEvents = s.db.seatEvents := by
  let env := callEnv c w.toShared pc now f
  have hf : env.StorageFine := callEnv_storageFine hfor.1 c w.toShared pc now
  have hstep : step w (.run 0 env) = some ⟨sh, Function.update w.procs 0 (next.proc c)⟩ := by
    simp only [step, hi]
    rw [hpc]
    rfl
  obtain ⟨s', hideal, hsim⟩ := h.sim.step (h.fresh env) hstep
  have hinv := restInv_step h.sim (a := .run 0 env) hf (Turn.cancelLocks hi hk hfor.2)
    (h.scanComplete env) h.inv hideal
  have halone : ∀ j, j ≠ 0 → Function.update w.procs 0 (next.proc c) j = .idle := by
    intro j hj
    rw [Function.update_of_ne hj]
    exact h.alone j hj
  cases hideal with
  | @run _ _ d q db' own' next' hj hrun =>
    have hok := h.inv.calls 0 d q hj
    exact ⟨_, ⟨hsim, hinv, rowsOfEvent_step hf hok (h.inv.ids _ (Nat.le_refl _)) h.rows hrun, halone⟩,
      (keeps_step hf hok hrun).events, seatEvents_step hf hok hrun⟩

/-- **The rest of a call**, to its return. -/
theorem turn_run {fs : List EngineFault} (hfs : ∀ f ∈ fs, f.FineFor c) {rc : EtpResult}
    {out : Option Nat} {sh : Shared} (h : Turn w s) (hi : w.procs 0 = .running c pc)
    (hk : Knows c w.db.bookings pc) (hrun : runCall c now fs w.toShared pc = some (sh, rc, out)) :
    ∃ w' s', Turn w' s' ∧ w'.toShared = sh ∧ w'.procs 0 = .done c rc out ∧
      s'.db.events = s.db.events ∧ s'.db.seatEvents = s.db.seatEvents := by
  induction fs generalizing w s pc with
  | nil => cases hrun
  | cons f fs ih =>
    have hf := hfs f List.mem_cons_self
    simp only [runCall] at hrun
    split at hrun
    · cases hrun
    · rename_i sh' pc' hpc
      obtain ⟨s', hturn, hevents, hseats⟩ := turn_step h hi hk hf hpc
      obtain ⟨w'', s'', hturn', hsh, hdone, hevents', hseats'⟩ :=
        ih (fun f' hf' => hfs f' (List.mem_cons_of_mem _ hf')) hturn (by simp [Next.proc])
          (knows_step hk hpc) hrun
      exact ⟨w'', s'', hturn', hsh, hdone, hevents'.trans hevents, hseats'.trans hseats⟩
    · rename_i sh' rc' out' hpc
      cases hrun
      obtain ⟨s', hturn, hevents, hseats⟩ := turn_step h hi hk hf hpc
      exact ⟨_, s', hturn, rfl, by simp [Next.proc], hevents, hseats⟩

end Steps

/-! ## Between two calls -/

/-- Nothing is under way: the managers are at rest, and the tables agree. -/
structure Rested (sh : Shared) : Prop where
  sim : Sim ⟨sh, fun _ => .idle⟩ (Ideal.init sh.db)
  inv : RestInv (Ideal.init sh.db)
  rows : sh.db.RowsOfEvent

/-- What agreeing tables have to satisfy. -/
theorem restInv_atRest {db : Db} (hids : ∀ b, db.bookings.nextId ≤ b → db.rowsOf b = [])
    (hcons : db.Consistent)
    (hfew : ∀ b r, db.bookings.get? b = some r → r.seatCount ≤ MAX_SEATS_PER_BOOKING) :
    RestInv (Ideal.init db) where
  calls := fun i c pc hp => by cases hp
  ids := hids
  one_writer := fun i j c d p q b hp => by cases hp
  order := fun i c pc hp => by cases hp
  booked := by
    intro b r t hr hconf ht
    obtain ⟨seat, hg, hb⟩ := (hcons.booked_iff t).mpr ⟨b, ⟨r, hr, hconf⟩, ht⟩
    exact Or.inl ⟨seat, hg, hb, hcons.user b r t seat hr hconf ht hg⟩
  unique := hcons.unique
  marked := by
    intro t seat hg hb
    obtain ⟨b, ⟨r, hr, hconf⟩, ht⟩ := (hcons.booked_iff t).mp ⟨seat, hg, hb⟩
    exact ⟨b, r, hr, hconf, ht, hcons.user b r t seat hr hconf ht hg⟩
  complete := fun b r hr hconf => Or.inl (hcons.complete b r hr hconf)
  scans := fun i c pc hp => by cases hp
  confirmed := fun i c pc b hp => by cases hp
  few := hfew

theorem Rested.consistent {sh : Shared} (h : Rested sh) : sh.db.Consistent :=
  h.inv.consistent (fun i c pc hp => by cases hp)

/-- A call that has returned leaves its place to the next one. -/
theorem Turn.rested {w : World} {s : Ideal} (h : Turn w s) {c : Call} {rc : EtpResult}
    {out : Option Nat} (hdone : w.procs 0 = .done c rc out) : Rested w.toShared := by
  have hquiet : ∀ i, ¬ w.Unfinished i := by
    rintro i ⟨d, pc, hp⟩
    by_cases hi : i = 0
    · rw [hi, hdone] at hp
      cases hp
    · rw [h.alone i hi] at hp
      cases hp
  have hown : s.own = fun _ => [] := funext fun i => h.sim.own_idle (hquiet i)
  have htxn : ∀ i txn, (w.procs i).txn ≠ some txn := by
    intro i txn ht
    cases hp : w.procs i with
    | running d pc => exact hquiet i ⟨d, pc, hp⟩
    | idle => rw [hp] at ht; cases ht
    | done d rc out => rw [hp] at ht; cases ht
  have hlock := h.sim.inv
  have hdb := h.sim.db
  refine ⟨⟨rfl, rfl, ?_⟩, ?_, by rw [← hdb]; exact h.rows⟩
  · refine ⟨hlock.distinct, hlock.next_ne, fun _ => rfl, ?_, ?_, fun _ => List.nodup_nil, ?_, ?_,
      hlock.no_shared, ⟨0, fun _ _ => rfl⟩⟩
    · intro i j txn ht
      cases ht
    · intro n t ht
      obtain ⟨i, hi⟩ := hlock.slot_call n t ht
      exact absurd hi (htxn i t.id)
    · intro i j key hk
      cases hk
    · intro key
      have hheld := hlock.held key
      rw [hown] at hheld
      exact hheld
  · rw [← hdb]
    apply restInv_atRest h.inv.ids
    · apply h.inv.consistent
      intro i d pc hp
      rw [h.sim.procs] at hp
      exact hquiet i ⟨d, pc, hp⟩
    · exact h.inv.few

/-- **A call that runs to its end** while nothing else is under way. -/
theorem Rested.call {sh sh' : Shared} (h : Rested sh) {c : Call} {now : Int} {fs : List EngineFault}
    (hfs : ∀ f ∈ fs, f.FineFor c) {rc : EtpResult} {out : Option Nat}
    (hrun : runCall c now fs sh c.entry = some (sh', rc, out)) :
    Rested sh' ∧ sh'.db.events = sh.db.events ∧ sh'.db.seatEvents = sh.db.seatEvents := by
  let w : World := ⟨sh, fun _ => .idle⟩
  have hstart : step w (.start 0 c) = some ⟨sh, Function.update w.procs 0 (.running c c.entry)⟩ := rfl
  obtain ⟨s, hideal, hsim⟩ := h.sim.step (a := .start 0 c) trivial hstart
  have hinv := restInv_step h.sim (a := .start 0 c) trivial trivial trivial h.inv hideal
  have hturn : Turn ⟨sh, Function.update w.procs 0 (.running c c.entry)⟩ s := by
    refine ⟨hsim, hinv, ?_, fun j hj => Function.update_of_ne hj _ _⟩
    rw [hsim.db]
    exact h.rows
  obtain ⟨w', s', hend, rfl, hdone, hevents, hseats⟩ :=
    turn_run hfs hturn (by simp) (knows_entry c _) hrun
  rw [hsim.db, hend.sim.db] at hevents hseats
  exact ⟨hend.rested hdone, hevents, hseats⟩

/-- **Changes made by others** between two calls: any change to the events, and new seats that are
free. -/
theorem Rested.tables {sh : Shared} (h : Rested sh) (events : OTable EventRecord)
    {seats : OTable SeatRecord}
    (hkeep : ∀ t seat, sh.db.seats.get? t = some seat → seats.get? t = some seat)
    (hnew : ∀ t seat, seats.get? t = some seat → seat.status = .booked →
      sh.db.seats.get? t = some seat) :
    Rested { sh with db := { sh.db with events := events, seats := seats } } := by
  have hcons := h.consistent
  refine ⟨⟨rfl, rfl, ?_⟩, ?_, ?_⟩
  · have hlock := h.sim.inv
    exact ⟨hlock.distinct, hlock.next_ne, hlock.rep, hlock.one_call, hlock.slot_call, hlock.nodup,
      hlock.disjoint, hlock.held, hlock.no_shared, hlock.finite⟩
  · refine restInv_atRest h.inv.ids ⟨?_, hcons.unique, ?_, hcons.complete⟩ h.inv.few
    · intro t
      constructor
      · rintro ⟨seat, hg, hb⟩
        exact (hcons.booked_iff t).mp ⟨seat, hnew t seat hg hb, hb⟩
      · intro hrow
        obtain ⟨seat, hg, hb⟩ := (hcons.booked_iff t).mpr hrow
        exact ⟨seat, hkeep t seat hg, hb⟩
    · intro b r t seat hr hconf ht hg
      obtain ⟨seat', hg', -⟩ := (hcons.booked_iff t).mpr ⟨b, ⟨r, hr, hconf⟩, ht⟩
      have hsame : some seat' = some seat := (hkeep t seat' hg').symm.trans hg
      rw [Option.some.injEq] at hsame
      exact hsame ▸ hcons.user b r t seat' hr hconf ht hg'
  · refine ⟨fun b r t seat hr hconf ht hg => ?_, h.rows.nodup⟩
    obtain ⟨seat', hg', -⟩ := (hcons.booked_iff t).mpr ⟨b, ⟨r, hr, hconf⟩, ht⟩
    have hsame : some seat' = some seat := (hkeep t seat' hg').symm.trans hg
    rw [Option.some.injEq] at hsame
    exact hsame ▸ h.rows.event b r t seat' hr hconf ht hg'

end Ticketing
