import Ticketing.Core.BookingCancellation
import Ticketing.Core.EventManager

/-!
# Creating events while others create and book

`event_mgr_create_event` takes no lock: it inserts the event and then its seats one by one, and
between two insertions anything may happen.  One step of a creation is one `table_insert`.

* `CreationSys` — the booking system together with any number of creations.
* `Db.places`, `places_step` — no call of the booking engine moves, adds or removes a seat.
* `Db.gridOf` — the seats of an event in the order of the table.
* `GridInv`, `gridInv_step` — the seats of an event and those still to be inserted for it make up its
  grid.
* `every_event_has_its_grid` — what `event_mgr_get_seats` returns once the creation has returned.
-/

set_option autoImplicit false

namespace Ticketing

open CText

/-! ## The system -/

/-- The arguments of `event_mgr_create_event`. -/
structure CreateArgs where
  name : CStr
  venue : CStr
  date : CStr
  time : CStr
  organizerId : Nat
  totalRows : Nat
  seatsPerRow : Nat
  price : Float32

/-- The argument checks. -/
def CreateArgs.valid (libc : FloatLibc) (a : CreateArgs) : Bool :=
  libc.isFinite a.price && !libc.isNegative a.price &&
    !decide (a.totalRows = 0 ∨ a.totalRows > MAX_SEAT_ROWS) &&
    !decide (a.seatsPerRow = 0 ∨ a.seatsPerRow > MAX_SEATS_PER_ROW)

/-- The event record. -/
def CreateArgs.event (a : CreateArgs) : EventRow :=
  { name := strlcpy 64 a.name, venue := strlcpy 64 a.venue, eventDate := strlcpy 11 a.date,
    eventTime := strlcpy 6 a.time, organizerId := a.organizerId, totalRows := a.totalRows,
    seatsPerRow := a.seatsPerRow, price := a.price, status := .active }

/-- Where a creation stands: at its argument checks, or in its loop with some seats left. -/
inductive CreatePc where
  | start
  | seats (eventId : Nat) (rest : List SeatRecord)

/-- A creation that has not been called, is running, or has returned. -/
inductive CreateProc where
  | idle
  | running (a : CreateArgs) (pc : CreatePc)
  | done (a : CreateArgs) (rc : EtpResult) (out : Option Nat)

/-- The events with all their fields, the booking system, and every creation. -/
structure CreationSys where
  events : OTable EventRow
  world : World
  creates : Nat → CreateProc

/-- Who moves. -/
inductive CreationAct where
  | engine (a : Action)
  | start (j : Nat) (a : CreateArgs)
  | create (j : Nat) (fault : TableFault)

namespace CreationSys

/-- Other events. -/
def withEvents (s : CreationSys) (events : OTable EventRow) : CreationSys :=
  { s with
    events := events
    world := { s.world with db := { s.world.db with events := events.map EventRow.record } } }

/-- Other seats. -/
def withSeats (s : CreationSys) (seats : OTable SeatRecord) : CreationSys :=
  { s with world := { s.world with db := { s.world.db with seats := seats } } }

/-- One step of a creation. -/
def createStep (libc : FloatLibc) (s : CreationSys) (a : CreateArgs) (fault : TableFault) :
    CreatePc → Option (CreationSys × CreateProc)
  | .start =>
    if a.valid libc then
      (insertRecord s.events a.event fault).map fun r =>
        (s.withEvents r.1, match r.2 with
          | .error rc => .done a rc none
          | .ok eventId =>
            .running a (.seats eventId (seatGrid eventId a.totalRows a.seatsPerRow)))
    else some (s, .done a .errInvalidArg none)
  | .seats eventId [] => some (s, .done a .ok (some eventId))
  -- a seat that cannot be inserted is left out
  | .seats eventId (seat :: rest) =>
    (insertRecord s.world.db.seats seat fault).map fun r =>
      (s.withSeats r.1, .running a (.seats eventId rest))

/-- One step of the system. -/
def step (libc : FloatLibc) (s : CreationSys) : CreationAct → Option CreationSys
  | .engine a => (Ticketing.step s.world a).map fun w => { s with world := w }
  | .start j a =>
    match s.creates j with
    | .idle => some { s with creates := Function.update s.creates j (.running a .start) }
    | _ => none
  | .create j fault =>
    match s.creates j with
    | .running a pc =>
      (createStep libc s a fault pc).map fun r =>
        { r.1 with creates := Function.update r.1.creates j r.2 }
    | _ => none

/-- A system at rest over some tables. -/
def init (events : OTable EventRow) (seats : OTable SeatRecord) (bookings : OTable BookingRecord)
    (bookingSeats : OTable BookingSeatRecord) : CreationSys :=
  ⟨events, World.init ⟨events.map EventRow.record, seats, bookings, bookingSeats⟩, fun _ => .idle⟩

end CreationSys

/-- Storage works in this step; memory and log may fail. -/
def CreationAct.StorageOk : CreationAct → Prop
  | .engine a => Ticketing.StorageOk a
  | .start _ _ => True
  | .create _ fault => fault = .none

/-! ## Seats stay where they are -/

/-- What names a seat: its event, row and number. -/
def SeatRecord.place (seat : SeatRecord) : Nat × UInt8 × UInt16 :=
  (seat.eventId, seat.rowLabel, seat.seatNumber)

/-- The places of all seats. -/
def Db.places (db : Db) : OTable (Nat × UInt8 × UInt16) := db.seats.map SeatRecord.place

/-- The seat a call has read and is about to write back, with its id. -/
def Pc.holds (c : Call) : Pc → Option (Nat × SeatRecord)
  | .table _ (.bookUpdateSeat _ i seat) => some (seatAt c.seats i, seat)
  | .table _ (.cancelUpdateSeat _ rows i seat) =>
    some (seatAt (rows.map BookingSeatRecord.seatId) i, seat)
  | _ => none

/-- The seat a call has read is the one under its id, up to status and owner. -/
def HoldsPlace (db : Db) (c : Call) (pc : Pc) : Prop :=
  ∀ x seat, pc.holds c = some (x, seat) → db.places.get? x = some seat.place

section Places

variable {c : Call} {env : Env} {db db' : Db} {s s' : Shared} {txn : UInt32} {ts : TableStep}
  {pc pc' : Pc} {next : Next}

theorem HoldsPlace.of_none (h : pc.holds c = none) : HoldsPlace db c pc := by
  intro x seat hx
  rw [h] at hx
  cases hx

/-- The same place is written back. -/
theorem places_update {x : Nat} {seat seat' : SeatRecord} (h : db.places.get? x = some seat.place)
    (hg : db.seats.get? x = some seat') {new : SeatRecord} (hnew : new.place = seat.place) :
    (db.seats.update x new).map SeatRecord.place = db.seats.map SeatRecord.place := by
  apply OTable.map_update hg
  rw [Db.places, OTable.get?_map, hg, Option.map_some, Option.some.injEq] at h
  rw [hnew, h]

theorem places_table (hh : HoldsPlace db c (.table txn ts))
    (he : TableEffect c env db txn ts db' pc') : db'.places = db.places := by
  cases he with
  | seatBooked hg => exact places_update (hh _ _ rfl) hg rfl
  | released hg => exact places_update (hh _ _ rfl) hg rfl
  | _ => rfl

theorem holds_bookVerifyLoop (evt : EventRecord) (i : Nat) :
    (bookVerifyLoop c evt txn i).holds c = none := by
  unfold bookVerifyLoop
  split <;> rfl

theorem holds_bookLockLoop (evt : EventRecord) (i : Nat) :
    (bookLockLoop c evt txn i).holds c = none := by
  unfold bookLockLoop
  split
  · rfl
  · exact holds_bookVerifyLoop evt 0

theorem holds_bookSeatLoop (b i : Nat) : (bookSeatLoop c txn b i).holds c = none := by
  unfold bookSeatLoop
  split <;> rfl

theorem holds_cancelSeatLoop (booking : BookingRecord) (rows : List BookingSeatRecord) (i : Nat) :
    (cancelSeatLoop txn booking rows i).holds c = none := by
  unfold cancelSeatLoop
  split <;> rfl

theorem holds_afterLock (site : LockSite) : (afterLock c txn site).holds c = none := by
  cases site with
  | bookSeat evt i => exact holds_bookLockLoop evt (i + 1)
  | cancelBooking => rfl
  | cancelSeat booking rows i => rfl

theorem holds_table (he : TableEffect c env db txn ts db' pc') : HoldsPlace db' c pc' := by
  cases he with
  | verified _ => exact .of_none (holds_bookVerifyLoop _ _)
  | inserted _ => exact .of_none (holds_bookSeatLoop _ _)
  | seatFound hg =>
    intro x seat hx
    cases hx
    rw [Db.places, OTable.get?_map, hg]
    rfl
  | seatBooked _ => exact .of_none (holds_bookSeatLoop _ _)
  | scanned => exact .of_none (holds_cancelSeatLoop _ _ _)
  | skipped _ => exact .of_none (holds_cancelSeatLoop _ _ _)
  | toRelease hg =>
    intro x seat hx
    cases hx
    rw [Db.places, OTable.get?_map, hg]
    rfl
  | released _ => exact .of_none (holds_cancelSeatLoop _ _ _)
  | _ => exact .of_none rfl

/-- **One step of the booking engine** leaves every seat in its place. -/
theorem places_step (hst : env.storage = .ok) (hh : HoldsPlace s.db c pc)
    (h : pcStep c env s pc = some (s', next)) :
    s'.db.places = s.db.places ∧ ∀ pc', next = .goto pc' → HoldsPlace s'.db c pc' := by
  cases pc with
  | bookStart =>
    obtain ⟨⟨db', next'⟩, hr, he⟩ := Option.map_eq_some_iff.mp h
    obtain ⟨rfl, rfl⟩ := Prod.mk.inj he
    obtain ⟨rfl, hcase⟩ := bookStart_fine hst hr
    refine ⟨rfl, fun pc' hpc => ?_⟩
    rcases hcase with ⟨-, rfl⟩ | ⟨-, -, rfl⟩ | ⟨-, evt, -, ⟨-, rfl⟩ | ⟨-, rfl⟩⟩
    all_goals cases hpc
    exact .of_none rfl
  | table txn ts =>
    obtain ⟨⟨db', pc''⟩, hr, he⟩ := Option.map_eq_some_iff.mp h
    obtain ⟨rfl, rfl⟩ := Prod.mk.inj he
    have heffect := tableStep_effect hst hr
    refine ⟨places_table hh heffect, fun pc' hpc => ?_⟩
    cases hpc
    exact holds_table heffect
  | begin evt =>
    simp only [pcStep] at h
    split at h <;> cases h
    · exact ⟨rfl, fun pc' hpc => by cases hpc⟩
    · refine ⟨rfl, fun pc' hpc => ?_⟩
      cases hpc
      cases evt with
      | none => exact .of_none rfl
      | some evt => exact .of_none (holds_bookLockLoop evt 0)
  | lock stage txn site =>
    cases stage with
    | check =>
      simp only [pcStep] at h
      split at h <;> cases h
      · exact ⟨rfl, fun pc' hpc => by cases hpc; exact .of_none rfl⟩
      · exact ⟨rfl, fun pc' hpc => by cases hpc; exact .of_none (holds_afterLock site)⟩
      · exact ⟨rfl, fun pc' hpc => by cases hpc; exact .of_none rfl⟩
    | acquire =>
      obtain ⟨locks, -, he⟩ := Option.map_eq_some_iff.mp h
      split at he <;> cases he
      · exact ⟨rfl, fun pc' hpc => by cases hpc; exact .of_none rfl⟩
      · exact ⟨rfl, fun pc' hpc => by cases hpc; exact .of_none rfl⟩
    | register =>
      simp only [pcStep] at h
      split at h <;> cases h
      · exact ⟨rfl, fun pc' hpc => by cases hpc; exact .of_none (holds_afterLock site)⟩
      · exact ⟨rfl, fun pc' hpc => by cases hpc; exact .of_none rfl⟩
  | commit txn out =>
    simp only [pcStep] at h
    split at h <;> cases h
    · exact ⟨rfl, fun pc' hpc => by cases hpc⟩
    · exact ⟨rfl, fun pc' hpc => by cases hpc; exact .of_none rfl⟩
    · exact ⟨rfl, fun pc' hpc => by cases hpc; exact .of_none rfl⟩
  | abort txn rc =>
    simp only [pcStep] at h
    split at h <;> cases h
    · exact ⟨rfl, fun pc' hpc => by cases hpc⟩
    · exact ⟨rfl, fun pc' hpc => by cases hpc; exact .of_none rfl⟩
  | orphan txn key =>
    cases h
    exact ⟨rfl, fun pc' hpc => by cases hpc; exact .of_none rfl⟩
  | release locks rc out =>
    cases locks with
    | nil =>
      cases h
      exact ⟨rfl, fun pc' hpc => by cases hpc⟩
    | cons key locks =>
      cases h
      exact ⟨rfl, fun pc' hpc => by cases hpc; exact .of_none rfl⟩

end Places

/-! ## The seats of an event -/

/-- The places of the seats of an event, in the order of the table. -/
def Db.gridOf (db : Db) (e : Nat) : List (Nat × UInt8 × UInt16) :=
  (db.places.rows.map Prod.snd).filter (fun p => p.1 == e)

/-- The event a creation is making or has made, with its arguments and the seats still to come. -/
def CreateProc.owes : CreateProc → Option (CreateArgs × Nat × List SeatRecord)
  | .running a (.seats e rest) => some (a, e, rest)
  | .done a .ok (some e) => some (a, e, [])
  | _ => none

/-- No seat belongs to an event yet to be created, calls write seats back in their places, and each
creation has an event of its own whose seats are those inserted and those still to come. -/
structure GridInv (libc : FloatLibc) (s : CreationSys) : Prop where
  old : ∀ t p, s.world.db.places.get? t = some p → p.1 < s.events.nextId
  holds : ∀ i c pc, s.world.procs i = .running c pc → HoldsPlace s.world.db c pc
  grid : ∀ j a e rest, (s.creates j).owes = some (a, e, rest) →
    a.valid libc = true ∧ e < s.events.nextId ∧
      s.world.db.gridOf e ++ rest.map SeatRecord.place =
        (seatGrid e a.totalRows a.seatsPerRow).map SeatRecord.place
  own : ∀ j j' a a' e rest rest', (s.creates j).owes = some (a, e, rest) →
    (s.creates j').owes = some (a', e, rest') → j = j'

theorem gridInv_init {libc : FloatLibc} {events : OTable EventRow} {seats : OTable SeatRecord}
    (hold : ∀ t seat, seats.get? t = some seat → seat.eventId < events.nextId)
    (bookings : OTable BookingRecord) (bookingSeats : OTable BookingSeatRecord) :
    GridInv libc (CreationSys.init events seats bookings bookingSeats) where
  old := by
    intro t p hp
    have hmap : (seats.get? t).map SeatRecord.place = some p := by
      rw [← OTable.get?_map]
      exact hp
    obtain ⟨seat, hg, rfl⟩ := Option.map_eq_some_iff.mp hmap
    exact hold t seat hg
  holds := fun i c pc hp => by cases hp
  grid := fun j a e rest h => by cases h
  own := fun j j' a a' e rest rest' h => by cases h

section Steps

variable {libc : FloatLibc} {s s' : CreationSys}

theorem HoldsPlace.congr {db db' : Db} {c : Call} {pc : Pc} (h : HoldsPlace db c pc)
    (hp : db'.places = db.places) : HoldsPlace db' c pc := by
  intro x seat hx
  rw [hp]
  exact h x seat hx

theorem gridOf_congr {db db' : Db} (hp : db'.places = db.places) (e : Nat) :
    db'.gridOf e = db.gridOf e := by
  rw [Db.gridOf, Db.gridOf, hp]

/-- A step of the booking engine. -/
theorem GridInv.engine (inv : GridInv libc s) {a : Action} (hok : StorageOk a) {w : World}
    (hs : Ticketing.step s.world a = some w) : GridInv libc { s with world := w } := by
  have hkeep : w.db.places = s.world.db.places ∧
      ∀ i c pc, w.procs i = .running c pc → HoldsPlace w.db c pc := by
    cases a with
    | start i c =>
      simp only [Ticketing.step] at hs
      split at hs
      · cases hs
        refine ⟨rfl, fun j d pc hj => ?_⟩
        rcases (@running_update _ _ _ _ _ (.goto c.entry) _).mp hj with ⟨rfl, rfl, hpc⟩ | ⟨-, hj⟩
        · cases hpc
          cases d <;> exact .of_none rfl
        · exact inv.holds j d pc hj
      · cases hs
    | run i env =>
      simp only [Ticketing.step] at hs
      split at hs
      · rename_i c pc hp
        obtain ⟨⟨sh, next⟩, hr, rfl⟩ := Option.map_eq_some_iff.mp hs
        obtain ⟨hplaces, hnext⟩ := places_step hok (inv.holds i c pc hp) hr
        refine ⟨hplaces, fun j d q hj => ?_⟩
        rcases running_update.mp hj with ⟨rfl, rfl, hq⟩ | ⟨-, hj⟩
        · exact hnext q hq
        · exact (inv.holds j d q hj).congr hplaces
      · cases hs
  refine ⟨?_, hkeep.2, ?_, inv.own⟩
  · intro t p hp
    have hp' : s.world.db.places.get? t = some p := by
      rw [← hkeep.1]
      exact hp
    exact inv.old t p hp'
  · intro j a e rest h
    obtain ⟨hv, he, hgrid⟩ := inv.grid j a e rest h
    exact ⟨hv, he, by rw [gridOf_congr hkeep.1]; exact hgrid⟩

/-- Nothing is there for an event yet to be created. -/
theorem GridInv.gridOf_new (inv : GridInv libc s) : s.world.db.gridOf s.events.nextId = [] := by
  rw [Db.gridOf, List.filter_eq_nil_iff]
  intro p hp
  obtain ⟨⟨t, p'⟩, hmem, rfl⟩ := List.mem_map.mp hp
  have hlt := inv.old t p' (OTable.mem_iff.mp hmem)
  rw [beq_iff_eq]
  exact Nat.ne_of_lt hlt

/-- A creation that owes nothing or the same as before. -/
theorem GridInv.quiet (inv : GridInv libc s) {j : Nat} {P : CreateProc}
    (h : ∀ o, P.owes = some o → (s.creates j).owes = some o) :
    GridInv libc { s with creates := Function.update s.creates j P } := by
  have hback : ∀ j' o, (Function.update s.creates j P j').owes = some o →
      (s.creates j').owes = some o := by
    intro j' o ho
    rcases eq_or_ne j' j with rfl | hne
    · rw [Function.update_self] at ho
      exact h o ho
    · rwa [Function.update_of_ne hne] at ho
  refine ⟨inv.old, inv.holds, ?_, ?_⟩
  · intro j' a e rest ho
    exact inv.grid j' a e rest (hback _ _ ho)
  · intro j₁ j₂ a a' e rest rest' h₁ h₂
    exact inv.own j₁ j₂ a a' e rest rest' (hback _ _ h₁) (hback _ _ h₂)

/-- The event is inserted; its whole grid is still to come. -/
theorem GridInv.insertEvent (inv : GridInv libc s) {j : Nat} {a : CreateArgs}
    (hv : a.valid libc = true) :
    GridInv libc { s.withEvents (s.events.insert a.event) with
      creates := Function.update s.creates j (.running a
        (.seats s.events.nextId (seatGrid s.events.nextId a.totalRows a.seatsPerRow))) } := by
  have hother : ∀ j' a' e rest, j' ≠ j → (s.creates j').owes = some (a', e, rest) →
      e ≠ s.events.nextId := by
    intro j' a' e rest _ ho
    exact Nat.ne_of_lt (inv.grid j' a' e rest ho).2.1
  refine ⟨?_, inv.holds, ?_, ?_⟩
  · intro t p hp
    exact Nat.lt_succ_of_lt (inv.old t p hp)
  · intro j' a' e rest ho
    simp only at ho
    rcases eq_or_ne j' j with rfl | hne
    · rw [Function.update_self] at ho
      cases ho
      refine ⟨hv, Nat.lt_succ_self _, ?_⟩
      show s.world.db.gridOf _ ++ _ = _
      rw [inv.gridOf_new, List.nil_append]
    · rw [Function.update_of_ne hne] at ho
      obtain ⟨hv', he, hgrid⟩ := inv.grid j' a' e rest ho
      exact ⟨hv', Nat.lt_succ_of_lt he, hgrid⟩
  · intro j₁ j₂ a₁ a₂ e rest rest' h₁ h₂
    simp only at h₁ h₂
    rcases eq_or_ne j₁ j with rfl | hne₁
    · rcases eq_or_ne j₂ j₁ with rfl | hne₂
      · rfl
      · rw [Function.update_self] at h₁
        rw [Function.update_of_ne hne₂] at h₂
        cases h₁
        exact absurd rfl (hother _ _ _ _ hne₂ h₂)
    · rw [Function.update_of_ne hne₁] at h₁
      rcases eq_or_ne j₂ j with rfl | hne₂
      · rw [Function.update_self] at h₂
        cases h₂
        exact absurd rfl (hother _ _ _ _ hne₁ h₁)
      · rw [Function.update_of_ne hne₂] at h₂
        exact inv.own j₁ j₂ a₁ a₂ e rest rest' h₁ h₂

/-- The first of the seats still to come is inserted. -/
theorem GridInv.insertSeat (inv : GridInv libc s) {j : Nat} {a : CreateArgs} {e : Nat}
    {seat : SeatRecord} {rest : List SeatRecord}
    (hj : s.creates j = .running a (.seats e (seat :: rest))) :
    GridInv libc { s.withSeats (s.world.db.seats.insert seat) with
      creates := Function.update s.creates j (.running a (.seats e rest)) } := by
  obtain ⟨hv, he, hgrid⟩ := inv.grid j a e (seat :: rest) (by rw [hj]; rfl)
  -- it is a seat of the event being created
  have hevent : seat.eventId = e := by
    have hmem : seat.place ∈ (seatGrid e a.totalRows a.seatsPerRow).map SeatRecord.place := by
      rw [← hgrid]
      simp
    obtain ⟨seat', hseat', hplace⟩ := List.mem_map.mp hmem
    have heq : seat'.eventId = seat.eventId := congrArg Prod.fst hplace
    rw [← heq]
    exact (mem_seatGrid hseat').1
  have hgridOf : ∀ e', (s.withSeats (s.world.db.seats.insert seat)).world.db.gridOf e' =
      s.world.db.gridOf e' ++ if e' = e then [seat.place] else [] := by
    intro e'
    have hrows : (s.withSeats (s.world.db.seats.insert seat)).world.db.places.rows =
        s.world.db.places.rows ++ [(s.world.db.seats.nextId, seat.place)] := by
      simp [CreationSys.withSeats, Db.places, OTable.map]
    rw [Db.gridOf, hrows, List.map_append, List.filter_append, ← Db.gridOf]
    congr 1
    by_cases hee : e' = e
    · simp [SeatRecord.place, hevent, hee]
    · simp [SeatRecord.place, hevent, hee, Ne.symm hee]
  have hplaces : ∀ t, (s.withSeats (s.world.db.seats.insert seat)).world.db.places.get? t =
      if t = s.world.db.seats.nextId then some seat.place else s.world.db.places.get? t := by
    intro t
    have hget : (s.withSeats (s.world.db.seats.insert seat)).world.db.places.get? t =
        ((s.world.db.seats.insert seat).get? t).map SeatRecord.place := OTable.get?_map _ _ _
    rw [hget]
    split
    · rename_i ht
      rw [ht, OTable.get?_insert_self]
      rfl
    · rename_i ht
      rw [OTable.get?_insert_ne ht, Db.places, OTable.get?_map]
  refine ⟨?_, ?_, ?_, ?_⟩
  · intro t p hp
    have hp' := (hplaces t).symm.trans hp
    split at hp'
    · cases hp'
      show seat.eventId < s.events.nextId
      rw [hevent]
      exact he
    · exact inv.old t p hp'
  · intro i c pc hpc x held hx
    have hold := inv.holds i c pc hpc x held hx
    have hlt : x < s.world.db.places.nextId := OTable.get?_lt hold
    have hne : x ≠ s.world.db.seats.nextId := Nat.ne_of_lt hlt
    refine (hplaces x).trans ?_
    rw [if_neg hne]
    exact hold
  · intro j' a' e' rest' ho
    simp only at ho
    rcases eq_or_ne j' j with rfl | hne
    · rw [Function.update_self] at ho
      cases ho
      refine ⟨hv, he, ?_⟩
      rw [← hgrid]
      show (s.withSeats _).world.db.gridOf _ ++ _ = _
      rw [hgridOf, if_pos rfl, List.append_assoc]
      rfl
    · rw [Function.update_of_ne hne] at ho
      obtain ⟨hv', he', hgrid'⟩ := inv.grid j' a' e' rest' ho
      refine ⟨hv', he', ?_⟩
      have hee : e' ≠ e := by
        rintro rfl
        exact hne (inv.own j' j a' a e' rest' _ ho (by rw [hj]; rfl))
      show (s.withSeats _).world.db.gridOf _ ++ _ = _
      rw [hgridOf, if_neg hee, List.append_nil]
      exact hgrid'
  · have hback : ∀ j' a' e' rest', (Function.update s.creates j (.running a (.seats e rest)) j').owes =
        some (a', e', rest') → ∃ rest'', (s.creates j').owes = some (a', e', rest'') := by
      intro j' a' e' rest' ho
      rcases eq_or_ne j' j with rfl | hne
      · rw [Function.update_self] at ho
        cases ho
        exact ⟨_, by rw [hj]; rfl⟩
      · rw [Function.update_of_ne hne] at ho
        exact ⟨rest', ho⟩
    intro j₁ j₂ a₁ a₂ e' r₁ r₂ h₁ h₂
    obtain ⟨r₁', h₁'⟩ := hback _ _ _ _ h₁
    obtain ⟨r₂', h₂'⟩ := hback _ _ _ _ h₂
    exact inv.own j₁ j₂ a₁ a₂ e' _ _ h₁' h₂'

/-- **Every step** in which storage works keeps the invariant. -/
theorem gridInv_step (inv : GridInv libc s) {act : CreationAct} (hok : act.StorageOk)
    (hs : s.step libc act = some s') : GridInv libc s' := by
  cases act with
  | engine a =>
    obtain ⟨w, hw, rfl⟩ := Option.map_eq_some_iff.mp hs
    exact inv.engine hok hw
  | start j a =>
    simp only [CreationSys.step] at hs
    split at hs <;> cases hs
    exact inv.quiet (fun o ho => by cases ho)
  | create j fault =>
    cases hok
    simp only [CreationSys.step] at hs
    split at hs
    · rename_i a pc hj
      obtain ⟨⟨t, P⟩, ht, rfl⟩ := Option.map_eq_some_iff.mp hs
      cases pc with
      | start =>
        simp only [CreationSys.createStep] at ht
        split at ht
        · rename_i hv
          obtain ⟨⟨events, r⟩, hr, he⟩ := Option.map_eq_some_iff.mp ht
          simp only [insertRecord] at hr
          split at hr <;> cases hr
          cases he
          exact inv.insertEvent hv
        · cases ht
          exact inv.quiet (fun o ho => by cases ho)
      | seats e rest =>
        cases rest with
        | nil =>
          cases ht
          refine inv.quiet (fun o ho => ?_)
          rw [hj]
          exact ho
        | cons seat rest =>
          obtain ⟨⟨seats, r⟩, hr, he⟩ := Option.map_eq_some_iff.mp ht
          simp only [insertRecord] at hr
          split at hr <;> cases hr
          cases he
          exact inv.insertSeat hj
    · cases hs

end Steps

/-! ## What the event manager returns -/

/-- Row labels from `'A'` and seat numbers from 1, row by row. -/
def rowMajor (rows cols : Nat) : List (Nat × Nat) :=
  (List.range rows).flatMap fun row => (List.range cols).map fun i => (65 + row, i + 1)

theorem rowMajor_eq (rows cols : Nat) :
    rowMajor rows cols =
      ((List.range rows).product (List.range cols)).map fun p => (65 + p.1, p.2 + 1) := by
  rw [rowMajor, List.product, List.map_flatMap]
  simp only [List.map_map]
  rfl

theorem rowMajor_nodup (rows cols : Nat) : (rowMajor rows cols).Nodup := by
  rw [rowMajor_eq]
  refine (List.nodup_range.product List.nodup_range).map ?_
  rintro ⟨a, b⟩ ⟨a', b'⟩ h
  simp only [Prod.mk.injEq] at h ⊢
  omega

theorem mem_rowMajor {rows cols l n : Nat} :
    (l, n) ∈ rowMajor rows cols ↔ 65 ≤ l ∧ l < 65 + rows ∧ 1 ≤ n ∧ n ≤ cols := by
  rw [rowMajor_eq, List.mem_map]
  constructor
  · rintro ⟨⟨row, i⟩, hmem, heq⟩
    obtain ⟨hrow, hi⟩ := List.pair_mem_product.mp hmem
    rw [List.mem_range] at hrow hi
    simp only [Prod.mk.injEq] at heq
    omega
  · intro h
    refine ⟨(l - 65, n - 1), List.pair_mem_product.mpr ⟨?_, ?_⟩, ?_⟩
    · rw [List.mem_range]
      omega
    · rw [List.mem_range]
      omega
    · simp only [Prod.mk.injEq]
      omega

/-- The grid of an event within the bounds is not narrowed. -/
theorem seatGrid_numbers {e rows cols : Nat} (hrows : rows ≤ MAX_SEAT_ROWS)
    (hcols : cols ≤ MAX_SEATS_PER_ROW) :
    (seatGrid e rows cols).map (fun seat => (seat.rowLabel.toNat, seat.seatNumber.toNat)) =
      rowMajor rows cols := by
  unfold MAX_SEAT_ROWS at hrows
  unfold MAX_SEATS_PER_ROW at hcols
  rw [seatGrid, List.map_flatMap, rowMajor]
  refine List.flatMap_congr (fun row hrow => ?_)
  rw [List.map_map]
  refine List.map_congr_left (fun i hi => ?_)
  rw [List.mem_range] at hrow hi
  have hlabel : (UInt8.ofNat (65 + row)).toNat = 65 + row := by
    rw [UInt8.toNat_ofNat']
    exact Nat.mod_eq_of_lt (by omega)
  have hnumber : (UInt16.ofNat (i + 1)).toNat = i + 1 := by
    rw [UInt16.toNat_ofNat']
    exact Nat.mod_eq_of_lt (by omega)
  rw [Function.comp_apply, hlabel, hnumber]

theorem CreateArgs.bounds {libc : FloatLibc} {a : CreateArgs} (h : a.valid libc = true) :
    a.totalRows ≤ MAX_SEAT_ROWS ∧ a.seatsPerRow ≤ MAX_SEATS_PER_ROW := by
  simp only [CreateArgs.valid, Bool.and_eq_true, Bool.not_eq_true', decide_eq_false_iff_not] at h
  omega

theorem places_getSeats (db : Db) (e max : Nat) :
    (eventMgrGetSeats db.seats e max .none).map (fun x => x.2.place) = (db.gridOf e).take max := by
  have hrows : db.gridOf e =
      (db.seats.rows.filter (fun r => r.2.eventId == e)).map (fun x => x.2.place) := by
    rw [Db.gridOf, Db.places, OTable.map, List.map_map, List.filter_map]
    rfl
  rw [hrows, ← List.map_take]
  rfl

/-- **Every event has exactly its seat grid.**  Whatever creations, bookings and cancellations are
interleaved, once the creation of an event with `r` rows of `c` seats has returned `ETP_OK`,
`event_mgr_get_seats` returns `r * c` seats of the event in row-major order, each pair of row and
number once, under different ids, none of which is a seat of another event. -/
theorem every_event_has_its_grid {libc : FloatLibc} {events : OTable EventRow}
    {seats : OTable SeatRecord} {bookings : OTable BookingRecord}
    {bookingSeats : OTable BookingSeatRecord}
    (hold : ∀ t seat, seats.get? t = some seat → seat.eventId < events.nextId) {s : CreationSys}
    (h : Reachable (CreationSys.step libc) (fun _ act => act.StorageOk)
      (CreationSys.init events seats bookings bookingSeats) s)
    {j : Nat} {a : CreateArgs} {e : Nat} (hdone : s.creates j = .done a .ok (some e)) :
    ∃ got, eventMgrGetSeats s.world.db.seats e 2600 .none = got ∧
      got.length = a.totalRows * a.seatsPerRow ∧ (∀ x ∈ got, x.2.eventId = e) ∧
      got.map (fun x => (x.2.rowLabel.toNat, x.2.seatNumber.toNat)) =
        rowMajor a.totalRows a.seatsPerRow ∧
      (∀ l n, got.countP (fun x => x.2.rowLabel.toNat == l && x.2.seatNumber.toNat == n) =
        if 65 ≤ l ∧ l < 65 + a.totalRows ∧ 1 ≤ n ∧ n ≤ a.seatsPerRow then 1 else 0) ∧
      (got.map Prod.fst).Nodup ∧
      ∀ e' max, e' ≠ e → ∀ x ∈ eventMgrGetSeats s.world.db.seats e' max .none,
        x.1 ∉ got.map Prod.fst := by
  have inv : GridInv libc s := h.invariant (gridInv_init hold bookings bookingSeats)
    (fun _ _ _ hinv hok hs => gridInv_step hinv hok hs)
  obtain ⟨hv, -, hgrid⟩ := inv.grid j a e [] (by rw [hdone]; rfl)
  obtain ⟨hrows, hcols⟩ := CreateArgs.bounds hv
  rw [List.map_nil, List.append_nil] at hgrid
  have hlength : (s.world.db.gridOf e).length = a.totalRows * a.seatsPerRow := by
    rw [hgrid, List.length_map, length_seatGrid]
  have hfew : a.totalRows * a.seatsPerRow ≤ 2600 := Nat.mul_le_mul hrows hcols
  have hplaces : (eventMgrGetSeats s.world.db.seats e 2600 .none).map (fun x => x.2.place) =
      (seatGrid e a.totalRows a.seatsPerRow).map SeatRecord.place := by
    rw [places_getSeats, ← hgrid]
    exact List.take_of_length_le (by omega)
  have hnumbers : (eventMgrGetSeats s.world.db.seats e 2600 .none).map
      (fun x => (x.2.rowLabel.toNat, x.2.seatNumber.toNat)) = rowMajor a.totalRows a.seatsPerRow := by
    rw [← @seatGrid_numbers e _ _ hrows hcols]
    have hmap := congrArg (List.map fun p : Nat × UInt8 × UInt16 => (p.2.1.toNat, p.2.2.toNat)) hplaces
    rw [List.map_map, List.map_map] at hmap
    exact hmap
  have hsub : ∀ e' max, (eventMgrGetSeats s.world.db.seats e' max .none).Sublist s.world.db.seats.rows :=
    fun e' max => (List.take_sublist _ _).trans List.filter_sublist
  have hevent : ∀ e' max, ∀ x ∈ eventMgrGetSeats s.world.db.seats e' max .none, x.2.eventId = e' := by
    intro e' max x hx
    have hfilter := (List.mem_filter.mp (List.mem_of_mem_take hx)).2
    exact beq_iff_eq.mp hfilter
  refine ⟨_, rfl, ?_, hevent e 2600, hnumbers, ?_, ?_, ?_⟩
  · have hlen := congrArg List.length hplaces
    rw [List.length_map, List.length_map, length_seatGrid] at hlen
    exact hlen
  · intro l n
    have hcount : (rowMajor a.totalRows a.seatsPerRow).count (l, n) =
        if (l, n) ∈ rowMajor a.totalRows a.seatsPerRow then 1 else 0 :=
      (rowMajor_nodup _ _).count
    simp only [mem_rowMajor] at hcount
    rw [← hcount, ← hnumbers, List.count, List.countP_map]
    refine List.countP_congr (fun x _ => ?_)
    simp
  · exact (s.world.db.seats.sorted.sublist ((hsub e 2600).map _)).imp Nat.ne_of_lt
  · intro e' max hne x hx hmem
    obtain ⟨y, hy, hxy⟩ := List.mem_map.mp hmem
    -- an id stands for one seat
    have hx' := OTable.mem_iff.mp ((hsub e' max).subset hx)
    have hy' := OTable.mem_iff.mp ((hsub e 2600).subset hy)
    rw [hxy, hx', Option.some.injEq] at hy'
    refine hne ?_
    rw [← hevent e' max x hx, ← hevent e 2600 y hy, hy']

/-- The creation has returned event `id`. -/
def CreateProc.returned (id : Nat) : CreateProc → Bool
  | .done _ .ok (some out) => out == id
  | _ => false

theorem CreateProc.of_returned {id : Nat} {proc : CreateProc} (h : proc.returned id = true) :
    ∃ a, proc = .done a .ok (some id) := by
  unfold returned at h
  split at h
  · exact ⟨_, by rw [beq_iff_eq.mp h]⟩
  · cases h

/-- Two creations take turns, and a seat of the first event is booked before its second is there. -/
theorem every_event_has_its_grid_turns : ∃ s a,
    Reachable (CreationSys.step noFloats) (fun _ act => act.StorageOk)
        (CreationSys.init (.empty 1) (.empty 1) (.empty 1) (.empty 1)) s ∧
      s.creates 0 = .done a .ok (some 1) ∧ s.world.isDone 0 = true ∧
      (eventMgrGetSeats s.world.db.seats 1 2600 .none).map
        (fun x => (x.2.rowLabel.toNat, x.2.seatNumber.toNat)) = rowMajor a.totalRows a.seatsPerRow := by
  let create : Nat → CreationAct := fun j => .create j .none
  let acts : List CreationAct :=
    [.start 0 ⟨[], [], [], [], 5, 1, 2, 0⟩, .start 1 ⟨[], [], [], [], 5, 2, 1, 0⟩, create 0, create 1,
      create 0, create 1, .engine (.start 0 (.book 7 1 [1]))] ++
      (runs 0 13).map .engine ++ [create 1, create 0, create 1, create 0]
  have hfine : ∀ act ∈ acts, act.StorageOk := by
    intro act hact
    simp only [acts, create, runs, List.map_replicate, List.mem_append, List.mem_cons,
      List.mem_replicate, List.not_mem_nil, or_false] at hact
    rcases hact with (hact | ⟨-, rfl⟩) | hact
    · rcases hact with rfl | rfl | rfl | rfl | rfl | rfl | rfl
      all_goals trivial
    · rfl
    · rcases hact with rfl | rfl | rfl | rfl
      all_goals rfl
  have hrun : (runSteps (CreationSys.step noFloats) (fun _ _ => true)
      (CreationSys.init (.empty 1) (.empty 1) (.empty 1) (.empty 1)) acts).any
        (fun s => s.world.isDone 0 && (s.creates 0).returned 1) = true := by
    decide +kernel
  obtain ⟨s, hs, hcheck⟩ := (Option.any_eq_true _ _).mp hrun
  rw [Bool.and_eq_true] at hcheck
  obtain ⟨hdone, hmade⟩ := hcheck
  have hreach := Reachable.of_labels hfine hs
  obtain ⟨a, ha⟩ := CreateProc.of_returned hmade
  obtain ⟨got, rfl, -, -, hgot, -⟩ := every_event_has_its_grid (fun t seat hg => by cases hg) hreach ha
  exact ⟨s, a, hreach, ha, hdone, hgot⟩

end Ticketing
