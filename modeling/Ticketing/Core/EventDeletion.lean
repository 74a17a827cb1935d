import Ticketing.Core.BookingCalls
import Ticketing.Core.EventManager

/-!
# Deleting an event while it is being booked (`event_mgr_delete_event`)

`event_mgr_delete_event` is a single `table_delete` on the events table.  `booking_book_seats`
looks its event up once, before its transaction begins, and no lock covers the event record, so a
deletion can fall anywhere between that lookup and the insertion of the booking.

* `DeletionSys` — the booking system together with the events whose deletion has returned `ETP_OK`.
* `Pc.pastCheck` — the program points between the lookup of the event and the insertion.
* `DeletionSys.Quiet` — no booking of the event stands at such a point when it is deleted.
* `deleted_event_takes_no_booking` — in runs whose deletions are quiet, nothing is booked for a
  deleted event; `booking_after_deletion` is a run in which it is.
-/

set_option autoImplicit false

namespace Ticketing

/-- The booking system and the events whose deletion was reported. -/
structure DeletionSys where
  world : World
  deleted : List Nat

/-- Who moves. -/
inductive DeletionAct where
  | booking (a : Action)
  | delete (eventId : Nat) (fault : TableFault)

namespace DeletionSys

/-- One step of a booking engine call, or one deletion. -/
def step (s : DeletionSys) : DeletionAct → Option DeletionSys
  | .booking a => (Ticketing.step s.world a).map fun w => { s with world := w }
  | .delete eventId fault =>
    let r := eventMgrDeleteEvent s.world.db.events eventId fault
    some
      { world := { s.world with db := { s.world.db with events := r.1 } }
        deleted := if r.2 = .ok then eventId :: s.deleted else s.deleted }

/-- No call, no transaction and no deletion yet. -/
def init (db : Db) : DeletionSys := ⟨World.init db, []⟩

end DeletionSys

/-- The call has seen its event and has not yet inserted its booking. -/
def Pc.pastCheck : Pc → Bool
  | .begin (some _) => true
  | .lock _ _ (.bookSeat _ _) => true
  | .table _ (.bookVerify _ _) => true
  | .table _ (.bookInsert _) => true
  | _ => false

/-- The call is a booking of `eventId` that has seen the event and not yet inserted its booking. -/
def Proc.pastCheck (eventId : Nat) : Proc → Bool
  | .running c pc => pc.pastCheck && c.eventId == eventId
  | _ => false

/-- A table call that fails brings no deleted event back. -/
def Env.NoRevival (env : Env) (db : Db) : Prop :=
  ∀ db', env.leaves = some db' → ∀ e, db.events.get? e = none → db'.events.get? e = none

/-- Storage failures of the booking engine bring no event back. -/
def DeletionSys.Faithful (s : DeletionSys) : DeletionAct → Prop
  | .booking (.run _ env) => env.NoRevival s.world.db
  | _ => True

/-- An event is deleted only while no booking of it is between lookup and insertion. -/
def DeletionSys.Quiet (s : DeletionSys) : DeletionAct → Prop
  | .booking _ => True
  | .delete eventId _ => ∀ i, (s.world.procs i).pastCheck eventId = false

/-- Both conditions on a step. -/
def DeletionSys.Calm (s : DeletionSys) (a : DeletionAct) : Prop := s.Faithful a ∧ s.Quiet a

/-! ## What one step does to the events table -/

section Events

variable {c : Call} {env : Env} {db : Db}

/-- A table call of the engine leaves the events alone unless it fails. -/
theorem tableStep_events {db' : Db} {txn : UInt32} {ts : TableStep} {pc : Pc}
    (h : tableStep c env db txn ts = some (db', pc)) :
    db'.events = db.events ∨ env.leaves = some db' := by
  obtain hst | hleft | rfl := tableStep_storage h
  · left
    cases tableStep_effect hst h <;> rfl
  · exact Or.inr hleft
  · exact Or.inl rfl

/-- A booking goes past its check only when it finds the event. -/
theorem bookStart_goto {db' : Db} {pc : Pc} (h : bookStart c env db = some (db', .goto pc)) :
    db.events.get? c.eventId ≠ none := by
  intro hgone
  unfold bookStart tableFindById at h
  split at h
  · split at h
    · simp [hgone] at h
    · simp at h
    · simp at h
  · simp at h

/-- A step of a call leaves the events alone unless a table call fails. -/
theorem pcStep_events {s s' : Shared} {pc : Pc} {next : Next}
    (h : pcStep c env s pc = some (s', next)) :
    s'.db.events = s.db.events ∨ env.leaves = some s'.db := by
  obtain hdb | ⟨-, hstart⟩ | ⟨txn, ts, pc', -, htable⟩ := pcStep_db h
  · exact Or.inl (by rw [hdb])
  · exact (bookStart_db hstart).imp_left (fun hdb => by rw [hdb])
  · exact tableStep_events htable

/-! ## How a call gets past its check -/

theorem cancelSeatLoop_pastCheck (txn : UInt32) (booking : BookingRecord)
    (rows : List BookingSeatRecord) (i : Nat) :
    (cancelSeatLoop txn booking rows i).pastCheck = false := by
  unfold cancelSeatLoop
  split <;> rfl

theorem bookSeatLoop_pastCheck (txn : UInt32) (b i : Nat) :
    (bookSeatLoop c txn b i).pastCheck = false := by
  unfold bookSeatLoop
  split <;> rfl

/-- Only the verification loop of a booking stays before the insertion. -/
theorem tableStep_pastCheck {db' : Db} {txn : UInt32} {ts : TableStep} {pc : Pc}
    (h : tableStep c env db txn ts = some (db', pc)) (hp : pc.pastCheck = true) :
    (Pc.table txn ts).pastCheck = true := by
  cases ts with
  | bookVerify evt i => rfl
  | bookInsert evt => rfl
  | cancelScan booking =>
    obtain ⟨rows, -, hr⟩ := Option.map_eq_some_iff.mp h
    obtain ⟨-, rfl⟩ := Prod.mk.inj hr
    rw [cancelSeatLoop_pastCheck] at hp
    cases hp
  | bookJunction b i | bookFindSeat b i =>
    obtain ⟨r, -, hr⟩ := Option.map_eq_some_iff.mp h
    obtain ⟨-, rfl⟩ := Prod.mk.inj hr
    split at hp <;> cases hp
  | bookUpdateSeat b i seat =>
    obtain ⟨r, -, hr⟩ := Option.map_eq_some_iff.mp h
    obtain ⟨-, rfl⟩ := Prod.mk.inj hr
    split at hp
    · cases hp
    · rw [bookSeatLoop_pastCheck] at hp
      cases hp
  | cancelFind =>
    obtain ⟨r, -, hr⟩ := Option.map_eq_some_iff.mp h
    obtain ⟨-, rfl⟩ := Prod.mk.inj hr
    split at hp
    · cases hp
    · split at hp
      · cases hp
      · split at hp <;> cases hp
  | cancelFindSeat booking rows i =>
    obtain ⟨r, -, hr⟩ := Option.map_eq_some_iff.mp h
    obtain ⟨-, rfl⟩ := Prod.mk.inj hr
    split at hp
    · rw [cancelSeatLoop_pastCheck] at hp
      cases hp
    · cases hp
  | cancelUpdateSeat booking rows i seat =>
    obtain ⟨r, -, hr⟩ := Option.map_eq_some_iff.mp h
    obtain ⟨-, rfl⟩ := Prod.mk.inj hr
    split at hp
    · cases hp
    · rw [cancelSeatLoop_pastCheck] at hp
      cases hp
  | cancelUpdateBooking booking rows =>
    obtain ⟨r, -, hr⟩ := Option.map_eq_some_iff.mp h
    obtain ⟨-, rfl⟩ := Prod.mk.inj hr
    split at hp <;> cases hp

theorem lock_pastCheck (stage stage' : LockStage) (txn : UInt32) (site : LockSite) :
    (Pc.lock stage txn site).pastCheck = (Pc.lock stage' txn site).pastCheck := by
  cases site <;> rfl

theorem afterLock_pastCheck {txn : UInt32} {site : LockSite} {stage : LockStage}
    (hp : (afterLock c txn site).pastCheck = true) :
    (Pc.lock stage txn site).pastCheck = true := by
  cases site with
  | bookSeat evt i => rfl
  | cancelBooking => cases hp
  | cancelSeat booking rows i => cases hp

/-- A call past its check was past it before, or has just found its event. -/
theorem pcStep_pastCheck {s s' : Shared} {pc pc' : Pc}
    (h : pcStep c env s pc = some (s', .goto pc')) (hp : pc'.pastCheck = true) :
    pc.pastCheck = true ∨ s.db.events.get? c.eventId ≠ none := by
  cases pc with
  | bookStart =>
    obtain ⟨r, hr, he⟩ := Option.map_eq_some_iff.mp h
    obtain ⟨-, hnext⟩ := Prod.mk.inj he
    have hstart : bookStart c env s.db = some (r.1, .goto pc') := by rw [hr, ← hnext]
    exact Or.inr (bookStart_goto hstart)
  | begin evt =>
    simp only [pcStep] at h
    split at h
    · cases h
    · cases h
      cases evt with
      | none => cases hp
      | some evt => exact Or.inl rfl
  | lock stage txn site =>
    left
    cases stage with
    | check =>
      simp only [pcStep] at h
      split at h <;> cases h
      · cases hp
      · exact afterLock_pastCheck hp
      · rwa [lock_pastCheck .check .acquire]
    | acquire =>
      obtain ⟨locks, -, he⟩ := Option.map_eq_some_iff.mp h
      split at he <;> cases he
      · rwa [lock_pastCheck .acquire .register]
      · cases hp
    | register =>
      simp only [pcStep] at h
      split at h <;> cases h
      · exact afterLock_pastCheck hp
      · cases hp
  | table txn ts =>
    obtain ⟨r, hr, he⟩ := Option.map_eq_some_iff.mp h
    obtain ⟨-, hnext⟩ := Prod.mk.inj he
    cases hnext
    exact Or.inl (tableStep_pastCheck hr hp)
  | commit txn out =>
    simp only [pcStep] at h
    split at h <;> cases h <;> cases hp
  | abort txn rc =>
    simp only [pcStep] at h
    split at h <;> cases h
    cases hp
  | orphan txn key =>
    cases h
    cases hp
  | release locks rc out =>
    cases locks with
    | nil => cases h
    | cons key locks =>
      cases h
      cases hp

end Events

/-! ## Bookings of deleted events -/

namespace DeletionSys

/-- A deleted event is gone, and no booking of it is on its way to the insertion. -/
structure Inv (s : DeletionSys) : Prop where
  gone : ∀ e ∈ s.deleted, s.world.db.events.get? e = none
  clear : ∀ e ∈ s.deleted, ∀ i, (s.world.procs i).pastCheck e = false

theorem inv_init (db : Db) : (init db).Inv where
  gone := fun e he => by cases he
  clear := fun e he => by cases he

/-- A step of the booking engine keeps the invariant. -/
theorem Inv.booking {s : DeletionSys} (h : s.Inv) {a : Action} (hok : s.Faithful (.booking a))
    {w : World} (hs : Ticketing.step s.world a = some w) : Inv { s with world := w } := by
  cases a with
  | start i c =>
    simp only [Ticketing.step] at hs
    split at hs
    · cases hs
      refine ⟨h.gone, fun e he j => ?_⟩
      rcases eq_or_ne j i with rfl | hj
      · simp only [Function.update_self]
        cases c <;> rfl
      · simp only [Function.update_of_ne hj]
        exact h.clear e he j
    · cases hs
  | run i env =>
    simp only [Ticketing.step] at hs
    split at hs
    · rename_i c pc hp
      obtain ⟨⟨sh, next⟩, hr, rfl⟩ := Option.map_eq_some_iff.mp hs
      refine ⟨fun e he => ?_, fun e he j => ?_⟩
      · obtain hev | hleft := pcStep_events hr
        · rw [show sh.db.events = s.world.db.events from hev]
          exact h.gone e he
        · exact hok sh.db hleft e (h.gone e he)
      · rcases eq_or_ne j i with rfl | hj
        · simp only [Function.update_self]
          have hbefore := h.clear e he j
          rw [hp] at hbefore
          cases next with
          | ret rc out => rfl
          | goto pc' =>
            by_contra hpast
            simp only [Next.proc, Proc.pastCheck, Bool.not_eq_false, Bool.and_eq_true,
              beq_iff_eq] at hpast
            obtain ⟨hpc', rfl⟩ := hpast
            obtain hpc | hfound := pcStep_pastCheck hr hpc'
            · simp [Proc.pastCheck, hpc] at hbefore
            · exact hfound (h.gone _ he)
        · simp only [Function.update_of_ne hj]
          exact h.clear e he j
    · cases hs

/-- A quiet deletion keeps the invariant. -/
theorem Inv.delete {s s' : DeletionSys} (h : s.Inv) {eventId : Nat} {fault : TableFault}
    (hquiet : s.Quiet (.delete eventId fault)) (hs : s.step (.delete eventId fault) = some s') :
    s'.Inv := by
  cases hs
  -- an event that is gone stays gone, and the reported one has just gone
  have hgone : ∀ e, s.world.db.events.get? e = none →
      (eventMgrDeleteEvent s.world.db.events eventId fault).1.get? e = none := by
    intro e he
    cases hg : (eventMgrDeleteEvent s.world.db.events eventId fault).1.get? e with
    | none => rfl
    | some evt =>
      rw [deleteRecord_sub hg] at he
      cases he
  refine ⟨fun e he => ?_, fun e he i => ?_⟩
  · simp only at he
    split at he
    · rename_i hok
      rcases List.mem_cons.mp he with rfl | he
      · exact deleteRecord_ok hok
      · exact hgone e (h.gone e he)
    · exact hgone e (h.gone e he)
  · simp only at he
    split at he
    · rcases List.mem_cons.mp he with rfl | he
      · exact hquiet i
      · exact h.clear e he i
    · exact h.clear e he i

theorem Inv.step {s s' : DeletionSys} {a : DeletionAct} (h : s.Inv) (hok : s.Calm a)
    (hs : s.step a = some s') : s'.Inv := by
  cases a with
  | booking a =>
    obtain ⟨w, hw, rfl⟩ := Option.map_eq_some_iff.mp hs
    exact h.booking hok.1 hw
  | delete eventId fault => exact h.delete hok.2 hs

theorem inv_reachable {db : Db} {s : DeletionSys} (h : Reachable step Calm (init db) s) : s.Inv :=
  Reachable.invariant (inv_init db) (fun _ _ _ hi hok hs => hi.step hok hs) h

end DeletionSys

/-- Only `booking_book_seats` at its insertion adds a row to the bookings table. -/
theorem pcStep_new_booking {c : Call} {env : Env} (hst : env.storage = .ok) {s s' : Shared}
    {pc : Pc} {next : Next} (h : pcStep c env s pc = some (s', next)) {id : Nat}
    {b : BookingRecord} (hnew : s.db.bookings.get? id = none)
    (hb : s'.db.bookings.get? id = some b) :
    ∃ txn evt, pc = .table txn (.bookInsert evt) ∧ b = newBooking c evt env.now := by
  -- a step that keeps the bookings table adds nothing
  have hsame : s'.db.bookings ≠ s.db.bookings := by
    intro he
    rw [he, hnew] at hb
    cases hb
  obtain hdb | ⟨-, hstart⟩ | ⟨txn, ts, pc', rfl, htable⟩ := pcStep_db h
  · exact absurd (congrArg Db.bookings hdb) hsame
  · obtain hdb | hleft := bookStart_db hstart
    · exact absurd (congrArg Db.bookings hdb) hsame
    · simp [Env.leaves, hst] at hleft
  · obtain ⟨db', locks, tm⟩ := s'
    simp only at htable hb hsame
    cases tableStep_effect hst htable with
    | @inserted evt hroom =>
      refine ⟨txn, evt, rfl, ?_⟩
      rcases eq_or_ne id s.db.bookings.nextId with rfl | hne
      · exact Option.some.inj (hb.symm.trans (OTable.get?_insert_self _ _))
      · have hkeep := hb.symm.trans (OTable.get?_insert_ne hne)
        rw [hnew] at hkeep
        cases hkeep
    | cancelled hg =>
      have hne : id ≠ c.bookingId := by
        rintro rfl
        rw [hnew] at hg
        cases hg
      have hkeep := hb.symm.trans (OTable.get?_update_ne hne)
      rw [hnew] at hkeep
      cases hkeep
    | _ => exact absurd rfl hsame

/-- **A deleted event takes no more bookings** as long as every deletion is quiet: once
`event_mgr_delete_event` has returned `ETP_OK`, no call reaches the insertion of a booking for the
event, and no step adds a booking record for it. -/
theorem deleted_event_takes_no_booking {db : Db} {s : DeletionSys}
    (h : Reachable DeletionSys.step DeletionSys.Calm (DeletionSys.init db) s) {eventId : Nat}
    (he : eventId ∈ s.deleted) :
    (∀ i c txn evt, s.world.procs i = .running c (.table txn (.bookInsert evt)) →
      c.eventId ≠ eventId) ∧
    ∀ a s', s.step a = some s' → (∀ i env, a = .booking (.run i env) → env.storage = .ok) →
      ∀ id b, s.world.db.bookings.get? id = none → s'.world.db.bookings.get? id = some b →
        b.eventId ≠ eventId := by
  have hclear := (DeletionSys.inv_reachable h).clear eventId he
  have hinsert : ∀ i c txn evt, s.world.procs i = .running c (.table txn (.bookInsert evt)) →
      c.eventId ≠ eventId := by
    rintro i c txn evt hp rfl
    have hnot := hclear i
    rw [hp] at hnot
    simp [Proc.pastCheck, Pc.pastCheck] at hnot
  refine ⟨hinsert, ?_⟩
  intro a s' hs hst id b hnew hb
  cases a with
  | delete e fault =>
    -- a deletion does not touch the bookings
    cases hs
    exact absurd (hnew.symm.trans hb) (by simp)
  | booking a =>
    obtain ⟨w, hw, rfl⟩ := Option.map_eq_some_iff.mp hs
    cases a with
    | start i c =>
      simp only [step] at hw
      split at hw
      · cases hw
        exact absurd (hnew.symm.trans hb) (by simp)
      · cases hw
    | run i env =>
      simp only [step] at hw
      split at hw
      · rename_i c pc hp
        obtain ⟨⟨sh, next⟩, hr, rfl⟩ := Option.map_eq_some_iff.mp hw
        obtain ⟨txn, evt, rfl, rfl⟩ := pcStep_new_booking (hst i env rfl) hr hnew hb
        exact hinsert i c txn evt hp
      · cases hw

/-! ## Runs -/

/-- `Calm` for a step in which nothing fails, to be evaluated when only the first `n` calls have
been made. -/
def DeletionSys.isCalm (n : Nat) (s : DeletionSys) : DeletionAct → Bool
  | .booking a => a.isFine && decide (a.proc < n)
  | .delete eventId _ => (List.range n).all (fun i => !(s.world.procs i).pastCheck eventId)

/-- Only the first `n` calls have been made. -/
def DeletionSys.Within (n : Nat) (s : DeletionSys) : Prop := ∀ i, n ≤ i → s.world.procs i = .idle

theorem noRevival_of_fine {env : Env} (h : env.Fine) (db : Db) : env.NoRevival db := by
  intro db' hleft
  simp [Env.leaves, h.1] at hleft

theorem DeletionSys.Within.step {n : Nat} {s s' : DeletionSys} {a : DeletionAct} (h : s.Within n)
    (hc : s.isCalm n a = true) (hs : s.step a = some s') : s'.Within n := by
  intro i hi
  cases a with
  | booking a =>
    obtain ⟨w, hw, rfl⟩ := Option.map_eq_some_iff.mp hs
    simp only [DeletionSys.isCalm, Bool.and_eq_true, decide_eq_true_eq] at hc
    have hne : a.proc ≠ i := by omega
    rw [show w.procs i = s.world.procs i from step_procs hw hne]
    exact h i hi
  | delete eventId fault =>
    cases hs
    exact h i hi

theorem DeletionSys.calm_of_isCalm {n : Nat} {s : DeletionSys} {a : DeletionAct} (h : s.Within n)
    (hc : s.isCalm n a = true) : s.Calm a := by
  cases a with
  | booking a =>
    simp only [DeletionSys.isCalm, Bool.and_eq_true] at hc
    have hfine := noFault_of_isFine hc.1
    refine ⟨?_, trivial⟩
    cases a with
    | start i c => trivial
    | run i env => exact noRevival_of_fine hfine _
  | delete eventId fault =>
    simp only [DeletionSys.isCalm, List.all_eq_true, List.mem_range] at hc
    refine ⟨trivial, fun i => ?_⟩
    by_cases hi : i < n
    · simpa using hc i hi
    · rw [h i (Nat.le_of_not_lt hi)]
      rfl

/-- Steps of the booking engine. -/
def bookingActs (as : List Action) : List DeletionAct := as.map .booking

/-- One booking completes, its event is deleted, and the next booking is turned away. -/
theorem deleted_event_takes_no_booking_orderly : ∃ s,
    Reachable DeletionSys.step DeletionSys.Calm (DeletionSys.init smallDb) s ∧ 1 ∈ s.deleted ∧
      s.world.db.isConfirmed 1 = true ∧
      ∀ i c txn evt, s.world.procs i = .running c (.table txn (.bookInsert evt)) →
        c.eventId ≠ 1 := by
  have hrun : (runSteps DeletionSys.step (DeletionSys.isCalm 2) (DeletionSys.init smallDb)
      (bookingActs (.start 0 (.book 7 1 [1]) :: runs 0 12) ++
        .delete 1 .none :: bookingActs (.start 1 (.book 8 1 [2]) :: runs 1 1))).any
      (fun s => s.deleted == [1] && s.world.db.isConfirmed 1) = true := by
    decide +kernel
  obtain ⟨s, hs, hcheck⟩ := (Option.any_eq_true _ _).mp hrun
  rw [Bool.and_eq_true, beq_iff_eq] at hcheck
  have hinit : (DeletionSys.init smallDb).Within 2 := fun _ _ => rfl
  have hreach := (Reachable.of_runSteps_inv (DeletionSys.Within 2)
    (fun _ _ _ hw hc hs => hw.step hc hs)
    (fun _ _ hw hc => DeletionSys.calm_of_isCalm hw hc) hinit hs).1
  have hmem : 1 ∈ s.deleted := by rw [hcheck.1]; decide
  exact ⟨s, hreach, hmem, hcheck.2, (deleted_event_takes_no_booking hreach hmem).1⟩

/-- No fault in the booking engine, to be evaluated. -/
def DeletionAct.isFine (_ : DeletionSys) : DeletionAct → Bool
  | .booking a => a.isFine
  | .delete _ _ => true

/-- The insertion of a confirmed booking for `eventId` by call 0, to be evaluated. -/
def DeletionSys.bookedBy0 (eventId : Nat) (s : DeletionSys) : Bool :=
  ((s.step (.booking (.run 0 (Env.fine 0)))).any fun s' =>
    (s'.world.db.bookings.get? 1).any fun b => b.eventId == eventId && b.status == .confirmed) &&
  (s.world.db.bookings.get? 1).isNone

/-- A booking of event 1 has found it when the event is deleted; the booking then goes through. -/
theorem booking_after_deletion : ∃ s s' : DeletionSys,
    Reachable DeletionSys.step DeletionSys.Faithful (DeletionSys.init smallDb) s ∧ 1 ∈ s.deleted ∧
      s.step (.booking (.run 0 (Env.fine 0))) = some s' ∧
      s.world.db.bookings.get? 1 = none ∧
      ∃ b, s'.world.db.bookings.get? 1 = some b ∧ b.eventId = 1 ∧ b.status = .confirmed := by
  have hrun : (runSteps DeletionSys.step DeletionAct.isFine (DeletionSys.init smallDb)
      (bookingActs (.start 0 (.book 7 1 [1]) :: runs 0 1) ++
        .delete 1 .none :: bookingActs (runs 0 5))).any
      (fun s => s.deleted == [1] && s.bookedBy0 1) = true := by
    decide +kernel
  obtain ⟨s, hs, hcheck⟩ := (Option.any_eq_true _ _).mp hrun
  simp only [DeletionSys.bookedBy0, Bool.and_eq_true, beq_iff_eq, Option.any_eq_true,
    Option.isNone_iff_eq_none] at hcheck
  obtain ⟨hdel, ⟨s', hs', b, hb, hevent, hstatus⟩, hnone⟩ := hcheck
  have hreach : Reachable DeletionSys.step DeletionSys.Faithful (DeletionSys.init smallDb) s := by
    refine Reachable.of_runSteps (fun v a hc => ?_) hs
    cases a with
    | booking a =>
      cases a with
      | start i c => trivial
      | run i env =>
        have hfine : NoFault (.run i env) := noFault_of_isFine hc
        exact noRevival_of_fine hfine _
    | delete eventId fault => trivial
  exact ⟨s, s', hreach, by rw [hdel]; decide, hs', hnone, b, hb, hevent, hstatus⟩

end Ticketing
