import Ticketing.Core.BookingExact
import Ticketing.Core.CancelExact
import Ticketing.Server.RevenueAgreement

/-!
# A cancellation undoes its booking

Requests run to their end one after another, from a server without events, seats and bookings.

* `Db.Unowned`, `Db.Stands` — free seats have no owner; a booking stands with its seats.
* `UndoInv`, `undoInv_step` — the first along whole runs; `Stands.step` — the second until the
  booking is cancelled for its user.
* `FreedSeats` — what a cancellation has done.
* `cancel_undoes_book` — it gives back the seats of its booking, whatever happened in between.
* `half_cancelled_call` — but not one that finds no memory for a lock entry.
-/

set_option autoImplicit false

namespace Ticketing

open CText

/-! ## The tables -/

/-- A free seat has no owner. -/
def Db.Unowned (db : Db) : Prop :=
  ∀ t seat, db.seats.get? t = some seat → seat.status = .available → seat.bookedBy = 0

/-- The booking is confirmed, for this user and event, and its junction records name these seats. -/
structure Db.Stands (db : Db) (b user event : Nat) (ids : List Nat) : Prop where
  booking : ∃ r, db.bookings.get? b = some r ∧ r.userId = user ∧ r.eventId = event ∧
    r.status = .confirmed
  rows : (db.rowsOf b).Perm ids

/-- From `db` to `db'` the booking `b` of the user has been cancelled: the seats are free again, the
booking is marked, nothing else changes. -/
structure FreedSeats (db db' : Db) (b user : Nat) (ids : List Nat) : Prop where
  events : db'.events = db.events
  junctions : db'.bookingSeats = db.bookingSeats
  seatIds : db'.seats.nextId = db.seats.nextId
  freed : ∀ x ∈ ids, ∃ seat, db.seats.get? x = some seat ∧ seat.status = .booked ∧
    seat.bookedBy = user ∧
    db'.seats.get? x = some { seat with status := .available, bookedBy := 0 }
  others : ∀ x, x ∉ ids → db'.seats.get? x = db.seats.get? x
  booking : ∃ r, db.bookings.get? b = some r ∧ r.userId = user ∧
    db'.bookings = db.bookings.update b { r with status := .cancelled }

theorem rowsOf_insertAll (db : Db) (b' : Nat) (l : List Nat) (b : Nat) :
    ({ db with bookingSeats := db.bookingSeats.insertAll (l.map fun x => ⟨b', x⟩) } : Db).rowsOf b =
      if b' = b then db.rowsOf b ++ l else db.rowsOf b := by
  induction l generalizing db with
  | nil =>
    have hnil : db.rowsOf b ++ [] = db.rowsOf b := List.append_nil _
    rw [hnil, ite_self]
    rfl
  | cons x l ih =>
    have hrest := ih { db with bookingSeats := db.bookingSeats.insert ⟨b', x⟩ }
    rw [rowsOf_insert] at hrest
    refine hrest.trans ?_
    by_cases hb : b' = b
    · simp [hb]
    · simp [hb]

section Calls

variable {m : Prop} {s s' : Shared} {now : Int} {rc : EtpResult} {out : Option Nat}

theorem Db.Unowned.mark {db : Db} (h : db.Unowned) {user : Nat} {l : List Nat} {db' : Db}
    (hseats : db'.seats = markSeats user db.seats l) : db'.Unowned := by
  intro t seat hg hav
  rw [hseats, get?_markSeats] at hg
  split at hg
  · obtain ⟨seat₀, -, rfl⟩ := Option.map_eq_some_iff.mp hg
    cases hav
  · exact h t seat hg hav

theorem get?_free (seats : OTable SeatRecord) (l : List Nat) (t : Nat) :
    (seats.modifyAll freeSeat l).get? t =
      if t ∈ l then (seats.get? t).map freeSeat else seats.get? t :=
  @OTable.get?_modifyAll _ freeSeat (fun _ => rfl) seats l t

theorem BookEnd.unowned {user event : Nat} {ids : List Nat}
    (h : BookEnd m (.book user event ids) now s s' rc out) (hu : s.db.Unowned) :
    s'.db.Unowned := by
  cases h with
  | early _ _ => exact hu
  | refused _ _ => exact hu
  | booked evt _ _ => exact hu.mark rfl

theorem CancelEnd.unowned {b user : Nat} (h : CancelEnd False b user s s' rc out) (hu : s.db.Unowned) :
    s'.db.Unowned := by
  cases h with
  | refused _ _ => exact hu
  | starved _ hno _ => exact hno.elim
  | cancelled booking _ _ =>
    intro t seat hg hav
    have hg' : (s.db.seats.modifyAll freeSeat (cancelSeats s.db b)).get? t = some seat := hg
    rw [get?_free] at hg'
    split at hg'
    · obtain ⟨seat₀, -, rfl⟩ := Option.map_eq_some_iff.mp hg'
      rfl
    · exact hu t seat hg' hav

theorem BookEnd.stands {user event : Nat} {ids : List Nat}
    (h : BookEnd m (.book user event ids) now s s' rc out) {b u e : Nat} {l : List Nat}
    (hst : s.db.Stands b u e l) : s'.db.Stands b u e l := by
  cases h with
  | early _ _ => exact hst
  | refused _ _ => exact hst
  | booked evt _ _ =>
    obtain ⟨r, hr, hrest⟩ := hst.booking
    have hne : b ≠ s.db.bookings.nextId := Nat.ne_of_lt (OTable.get?_lt hr)
    refine ⟨⟨r, ?_, hrest⟩, ?_⟩
    · exact (OTable.get?_insert_ne hne).trans hr
    · have hrows := rowsOf_insertAll s.db s.db.bookings.nextId
        ((Call.book user event ids).seats.take (Call.book user event ids).seats.length) b
      rw [if_neg hne.symm] at hrows
      exact (List.Perm.of_eq hrows).trans hst.rows

theorem CancelEnd.stands {b' user : Nat} (h : CancelEnd False b' user s s' rc out) {b u e : Nat}
    {l : List Nat} (hst : s.db.Stands b u e l) (hne : ¬ (b' = b ∧ user = u)) :
    s'.db.Stands b u e l := by
  cases h with
  | refused _ _ => exact hst
  | starved _ hno _ => exact hno.elim
  | cancelled booking hok hg =>
    obtain ⟨r, hr, hu, hrest⟩ := hst.booking
    have hb : b ≠ b' := by
      rintro rfl
      rw [hr, Option.some.injEq] at hg
      subst hg
      refine hne ⟨rfl, ?_⟩
      by_contra huser
      rw [cancelResult, hr] at hok
      simp only [hu] at hok
      rw [if_pos (Ne.symm huser)] at hok
      cases hok
    exact ⟨⟨r, (OTable.get?_update_ne hb).trans hr, hu, hrest⟩, hst.rows⟩

end Calls

/-! ## Between two calls -/

section Rest

variable {sh sh' : Shared} {now : Int} {fs : List EngineFault} {rc : EtpResult} {out : Option Nat}

theorem Rested.ready (h : Rested sh) : sh.Ready := by
  have hlock := h.sim.inv
  have hnone : ∀ i, sh.tm.txns i = none := by
    intro i
    cases ht : sh.tm.txns i with
    | none => rfl
    | some t =>
      obtain ⟨j, hj⟩ := hlock.slot_call i t ht
      cases hj
  refine ⟨⟨⟨0, by decide⟩, hnone _⟩, hlock.next_ne, ?_, fun key => ?_⟩
  · rintro ⟨i, t, ht, -⟩
    rw [hnone] at ht
    cases ht
  · have hshared : (sh.locks key).sharedCount = 0 := hlock.no_shared key
    have hheld : (sh.locks key).exclusiveHeld = false := by
      rw [← Bool.not_eq_true]
      intro hx
      obtain ⟨i, hi⟩ := (hlock.held key).mp hx
      cases hi
    cases hk : sh.locks key
    rw [hk] at hshared hheld
    rw [LockEntry.mk.injEq]
    exact ⟨hshared, hheld⟩

/-- A booking that has returned. -/
theorem Rested.bookEnd (h : Rested sh) {user event : Nat} {ids : List Nat}
    (hfs : ∀ f ∈ fs, f.StorageFine)
    (hrun : bookingBookSeats sh user event ids now fs = some (sh', rc, out)) :
    BookEnd True (.book user event ids) now sh sh' rc out := by
  have hreturns : Returns True True (.book user event ids) now
      (BookEnd True (.book user event ids) now sh) sh .bookStart :=
    book_returns h.ready (Or.inl trivial)
  obtain ⟨n, hn⟩ := hreturns
  exact hn.of_runCall (fun f hf => ⟨hfs f hf, fun _ => trivial⟩) hrun

/-- A cancellation that has returned, its lock entries allocated. -/
theorem Rested.cancelEnd (h : Rested sh) {b user : Nat} (hfs : ∀ f ∈ fs, f.FineFor (.cancel b user))
    (hrun : bookingCancel sh b user now fs = some (sh', rc, out)) :
    CancelEnd False b user sh sh' rc out := by
  have hreturns : Returns False True (.cancel b user) now (CancelEnd False b user sh) sh
      (.begin none) :=
    cancel_returns h.ready (h.rows.nodup b)
  obtain ⟨n, hn⟩ := hreturns
  refine hn.of_runCall (fun f hf => ⟨(hfs f hf).1, fun hno => ?_⟩) hrun
  rw [(hfs f hf).2 rfl] at hno
  cases hno

/-- A confirmed booking has at most as many junction records as a cancellation reads. -/
theorem Rested.few (h : Rested sh) {b user event : Nat} {ids : List Nat}
    (hst : sh.db.Stands b user event ids) : (sh.db.rowsOf b).length ≤ MAX_SEATS_PER_BOOKING := by
  obtain ⟨r, hr, -, -, hconf⟩ := hst.booking
  rw [h.consistent.complete b r hr hconf]
  exact h.inv.few b r hr

/-- The seats of a booking that stands. -/
theorem Rested.seat (h : Rested sh) {b user event : Nat} {ids : List Nat}
    (hst : sh.db.Stands b user event ids) {x : Nat} (hx : x ∈ ids) :
    ∃ seat, sh.db.seats.get? x = some seat ∧ seat.status = .booked ∧ seat.bookedBy = user ∧
      seat.eventId = event := by
  obtain ⟨r, hr, hu, he, hconf⟩ := hst.booking
  have hrow : x ∈ sh.db.rowsOf b := hst.rows.mem_iff.mpr hx
  obtain ⟨seat, hg, hbooked⟩ := (h.consistent.booked_iff x).mpr ⟨b, ⟨r, hr, hconf⟩, hrow⟩
  refine ⟨seat, hg, hbooked, ?_, ?_⟩
  · rw [h.consistent.user b r x seat hr hconf hrow hg, hu]
  · rw [h.rows.event b r x seat hr hconf hrow hg, he]

/-- The cancellation of a booking that stands. -/
theorem Rested.cancel (h : Rested sh) {b user event : Nat} {ids : List Nat}
    (hst : sh.db.Stands b user event ids) (now : Int) :
    ∃ sh' booking, sh.Completes (.cancel b user) now sh' .ok none ∧
      sh' = sh.ended (cancelledDb sh.db b booking) ∧
      FreedSeats sh.db sh'.db b user ids := by
  obtain ⟨r, hr, hu, he, hconf⟩ := hst.booking
  have hok : cancelResult sh.db b user = .ok := by simp [cancelResult, hr, hu, hconf]
  have hreturns : Returns False False (.cancel b user) now (CancelEnd False b user sh) sh
      (.begin none) :=
    cancel_returns h.ready (h.rows.nodup b)
  obtain ⟨sh', rc, out, hrun, hend⟩ := Returns.completes hreturns
  have hperm := (cancelSeats_perm (h.few hst)).trans hst.rows
  cases hend with
  | refused hrc hres => exact absurd (hres.symm.trans hok) hrc
  | starved _ hno _ => exact hno.elim
  | cancelled booking _ hg =>
    refine ⟨_, booking, hrun, rfl, rfl, rfl, OTable.nextId_modifyAll _ _ _, fun x hx => ?_,
      fun x hx => ?_, ⟨booking, hg, ?_, rfl⟩⟩
    · obtain ⟨seat, hseat, hbooked, howner, -⟩ := h.seat hst hx
      refine ⟨seat, hseat, hbooked, howner, ?_⟩
      show (sh.db.seats.modifyAll freeSeat (cancelSeats sh.db b)).get? x = _
      rw [get?_free, if_pos (hperm.mem_iff.mpr hx), hseat]
      rfl
    · show (sh.db.seats.modifyAll freeSeat (cancelSeats sh.db b)).get? x = _
      rw [get?_free, if_neg (fun hmem => hx (hperm.mem_iff.mp hmem))]
    · rw [hr, Option.some.injEq] at hg
      rw [← hg]
      exact hu

/-- The cancellation of anything else, whatever memory does. -/
theorem Rested.cancelRefused (h : Rested sh) {b user : Nat} (now : Int)
    (hnot : cancelResult sh.db b user ≠ .ok) :
    ∃ n, ∀ faults : List EngineFault, n ≤ faults.length → (∀ f ∈ faults, f.StorageFine) →
      ∃ sh' rc, bookingCancel sh b user now faults = some (sh', rc, none) ∧ rc ≠ .ok ∧
        sh'.db = sh.db := by
  have hreturns : Returns True False (.cancel b user) now (CancelEnd True b user sh) sh
      (.begin none) :=
    cancel_returns h.ready (h.rows.nodup b)
  obtain ⟨n, hn⟩ := hreturns
  refine ⟨n, fun faults hlen hfs => ?_⟩
  obtain ⟨sh', rc, out, hrun, hend⟩ := hn.runCall hlen (fun f hf => ⟨hfs f hf, fun _ => trivial⟩)
  obtain ⟨hrc, rfl, hdb⟩ := hend.unchanged hnot
  exact ⟨sh', rc, hrun, hrc, hdb⟩

end Rest

/-! ## Whole runs -/

/-- `RevenueInv`, and free seats have no owner. -/
structure UndoInv (s : Server) : Prop extends RevenueInv s where
  unowned : s.shared.db.Unowned

theorem undoInv_empty (users : OTable UserRecord) (auth : AuthManager) (stats : ServerStats) :
    UndoInv (Server.empty users auth stats) :=
  ⟨revenueInv_empty users auth stats, fun t seat hg => by cases hg⟩

/-- The request is not the cancellation of this booking for this user. -/
def TicketOp.Spares (b user : Nat) : TicketOp → Prop
  | .cancel b' user' _ _ => ¬ (b' = b ∧ user' = user)
  | _ => True

section Steps

variable {libc : FloatLibc} {s s' : Server} {op : TicketOp}

/-- **Every request** with working storage keeps the invariant, and the bookings it does not cancel,
if a cancellation gets its locks. -/
theorem undoInv_step (h : UndoInv s) (hf : op.StorageFine) (hlocks : op.CancelLocks)
    (hs : ticketStep libc s op = some s') : UndoInv s' ∧ ∀ b user event ids, op.Spares b user →
      s.shared.db.Stands b user event ids → s'.shared.db.Stands b user event ids := by
  have hinv := revenueInv_step h.toRevenueInv hf hlocks hs
  cases op with
  | create name venue date time organizerId totalRows seatsPerRow price fault =>
    obtain ⟨⟨events, seats, rc, out⟩, hcreate, rfl⟩ := Option.map_eq_some_iff.mp hs
    refine ⟨⟨hinv, ?_⟩, fun b user event ids _ hst => ⟨hst.booking, hst.rows⟩⟩
    rcases eventMgrCreateEvent_spec hf hcreate with ⟨rfl, rfl⟩ | ⟨evt, rfl, -, -, -, -, happ⟩
    · exact h.unowned
    · intro t seat hg hav
      rcases happ.new t seat hg with hold | hgrid
      · exact h.unowned t seat hold hav
      · exact (mem_seatGrid hgrid).2.2
  | delete eventId fault =>
    cases hs
    exact ⟨⟨hinv, h.unowned⟩, fun b user event ids _ hst => ⟨hst.booking, hst.rows⟩⟩
  | book userId eventId seatIds now faults =>
    obtain ⟨⟨sh, rc, out⟩, hrun, rfl⟩ := Option.map_eq_some_iff.mp hs
    have hend := h.rested.bookEnd hf hrun
    have hshared := Server.shared_withShared (h.rested.call hf.book hrun).2.1
    refine ⟨⟨hinv, ?_⟩, fun b user event ids _ hst => ?_⟩
    · rw [hshared]
      exact hend.unowned h.unowned
    · rw [hshared]
      exact hend.stands hst
  | cancel bookingId userId now faults =>
    obtain ⟨⟨sh, rc, out⟩, hrun, rfl⟩ := Option.map_eq_some_iff.mp hs
    have hend := h.rested.cancelEnd (hf.cancel hlocks) hrun
    have hshared := Server.shared_withShared (h.rested.call (hf.cancel hlocks) hrun).2.1
    refine ⟨⟨hinv, ?_⟩, fun b user event ids hspares hst => ?_⟩
    · rw [hshared]
      exact hend.unowned h.unowned
    · rw [hshared]
      exact hend.stands hst hspares

end Steps

section Undo

variable {libc : FloatLibc} {users : OTable UserRecord} {auth : AuthManager} {stats : ServerStats}
  {s₀ s : Server} {sh sh' : Shared} {b user event : Nat} {ids : List Nat} {now : Int}

theorem undoInv_reachable
    (h : Reachable (ticketStep libc) (fun _ op => op.StorageFine ∧ op.CancelLocks)
      (Server.empty users auth stats) s) : UndoInv s :=
  h.invariant (undoInv_empty users auth stats)
    (fun _ _ _ hinv hf hs => (undoInv_step hinv hf.1 hf.2 hs).1)

/-- A booking just made stands. -/
theorem Rested.stands_new (h : Rested sh) {evt : EventRecord} :
    (bookedDb (.book user event ids) evt now sh.db (Call.book user event ids).seats.length).Stands
      sh.db.bookings.nextId user event ids := by
  refine ⟨⟨_, OTable.get?_insert_self _ _, rfl, rfl, rfl⟩, ?_⟩
  have hrows := rowsOf_insertAll sh.db sh.db.bookings.nextId
    ((Call.book user event ids).seats.take (Call.book user event ids).seats.length)
    sh.db.bookings.nextId
  have hnil : sh.db.rowsOf sh.db.bookings.nextId = [] := h.inv.ids _ (Nat.le_refl _)
  rw [if_pos rfl, hnil, List.nil_append] at hrows
  refine (List.Perm.of_eq hrows).trans ?_
  rw [List.take_length]
  exact seats_perm user event ids

/-- Marked and freed again, a free seat without an owner is as it was. -/
theorem free_markSeats {db : Db} (hu : db.Unowned) {l l' : List Nat} (hl : ∀ x, x ∈ l' ↔ x ∈ l)
    (hfree : ∀ x ∈ l, ∃ seat, db.seats.get? x = some seat ∧ seat.status = .available) :
    (markSeats user db.seats l).modifyAll freeSeat l' = db.seats := by
  refine OTable.eq_of_get? ((OTable.nextId_modifyAll _ _ _).trans (nextId_markSeats _ _ _)) ?_
  intro x
  rw [get?_free, get?_markSeats]
  by_cases hx : x ∈ l
  · obtain ⟨seat, hseat, hav⟩ := hfree x hx
    rw [if_pos ((hl x).mpr hx), if_pos hx, hseat]
    have howner := hu x seat hseat hav
    cases seat
    simp only at hav howner
    subst hav
    subst howner
    rfl
  · rw [if_neg (fun hmem => hx ((hl x).mp hmem)), if_neg hx]

/-- Seats just freed can be booked by anybody. -/
theorem FreedSeats.rebook (h : FreedSeats sh.db sh'.db b user ids) (hrest : Rested sh)
    (hst : sh.db.Stands b user event ids) (hready : sh'.Ready) {db₀ : Db} (hcan : db₀.CanBook event ids)
    (hactive : ∃ evt, sh'.db.events.get? event = some evt ∧ evt.status = .active)
    (hroom : IdsLeft sh'.db ids) (user' : Nat) :
    ∃ sh'' b', sh'.Completes (.book user' event ids) now sh'' .ok (some b') ∧
      BookedSeats sh'.db sh''.db user' event ids b' := by
  have hcan' : sh'.db.CanBook event ids := by
    refine ⟨hcan.nonempty, hcan.few, hcan.nodup, hcan.nonzero, hactive, fun x hx => ?_⟩
    obtain ⟨seat, hseat, -, -, hfreed⟩ := h.freed x hx
    obtain ⟨seat', hseat', -, -, hevent⟩ := hrest.seat hst hx
    rw [hseat, Option.some.injEq] at hseat'
    exact ⟨_, hfreed, by rw [hseat']; exact hevent, rfl⟩
  have hreturns : Returns False False (.book user' event ids) now
      (BookEnd False (.book user' event ids) now sh') sh' .bookStart :=
    book_returns hready (Or.inr hroom)
  obtain ⟨sh'', rc, out, hrun, hend⟩ := Returns.completes hreturns
  obtain rfl : rc = .ok := hend.ok_iff.mpr hcan'
  obtain ⟨-, -, -, hok⟩ := hend.outcome hready
  obtain ⟨-, b', rfl, hbooked⟩ := hok rfl
  exact ⟨sh'', b', hrun, hbooked⟩

/-- **A cancellation undoes its booking.**  In every state reached by requests one after another with
working storage, whose cancellations get memory for their lock entries, the cancellation of no booking,
of another user's or of a cancelled one is refused and changes nothing.  And once a booking has
returned `ETP_OK`, whatever requests come after it that do not cancel it, its cancellation gives back
exactly its seats; at once after the booking that leaves the seats as they were; and anybody can book
the seats again while the event is active. -/
theorem cancel_undoes_book
    (h : Reachable (ticketStep libc) (fun _ op => op.StorageFine ∧ op.CancelLocks)
      (Server.empty users auth stats) s₀) :
    (∀ b user now, (s₀.bookings.get? b = none ∨
        ∃ r, s₀.bookings.get? b = some r ∧ (r.userId ≠ user ∨ r.status = .cancelled)) →
      ∃ n, ∀ faults : List EngineFault, n ≤ faults.length → (∀ f ∈ faults, f.StorageFine) →
        ∃ sh' rc, bookingCancel s₀.shared b user now faults = some (sh', rc, none) ∧ rc ≠ .ok ∧
          sh'.db = s₀.shared.db) ∧
    ∀ user event ids now faults sh₁ b, (∀ f ∈ faults, f.StorageFine) →
      bookingBookSeats s₀.shared user event ids now faults = some (sh₁, .ok, some b) →
      ∀ s, Reachable (ticketStep libc) (fun _ op => op.StorageFine ∧ op.CancelLocks ∧ op.Spares b user)
          (s₀.withShared sh₁) s → ∀ now₁,
        ∃ sh', s.shared.Completes (.cancel b user) now₁ sh' .ok none ∧
          FreedSeats s.shared.db sh'.db b user ids ∧
          (s = s₀.withShared sh₁ → sh'.db.seats = s₀.seats) ∧
          ∀ user' now₂,
            (∃ evt, sh'.db.events.get? event = some evt ∧ evt.status = .active) →
            IdsLeft sh'.db ids →
            ∃ sh'' b', sh'.Completes (.book user' event ids) now₂ sh'' .ok (some b') ∧
              BookedSeats sh'.db sh''.db user' event ids b' := by
  have inv := undoInv_reachable h
  constructor
  · intro b user now hnot
    refine inv.rested.cancelRefused now ?_
    show cancelResult ⟨_, _, s₀.bookings, _⟩ b user ≠ .ok
    rcases hnot with hnone | ⟨r, hr, hu | hc⟩
    · simp [cancelResult, hnone]
    · simp [cancelResult, hr, hu]
    · by_cases hu : r.userId = user <;> simp [cancelResult, hr, hu, hc]
  · intro user event ids now faults sh₁ b hfaults hrun s hlater now₁
    have hfine : (TicketOp.book user event ids now faults).StorageFine := hfaults
    have hshared := Server.shared_withShared (inv.rested.call hfine.book hrun).2.1
    have hend := inv.rested.bookEnd hfaults hrun
    have hstep : ticketStep libc s₀ (.book user event ids now faults) = some (s₀.withShared sh₁) :=
      Option.map_eq_some_iff.mpr ⟨_, hrun, rfl⟩
    have inv₁ := (undoInv_step inv hfine trivial hstep).1
    cases hend with
    | booked evt hok hevt =>
      have hcan := bookResult_ok_iff.mp hok
      have hinit : UndoInv (s₀.withShared _) ∧ (s₀.withShared _).shared.db.Stands _ user event ids :=
        ⟨inv₁, by rw [hshared]; exact inv.rested.stands_new⟩
      have hnow := hlater.invariant
        (I := fun s => UndoInv s ∧ s.shared.db.Stands s₀.shared.db.bookings.nextId user event ids)
        hinit (fun t op t' hI hop ht => by
          obtain ⟨hinv', hkeep⟩ := undoInv_step hI.1 hop.1 hop.2.1 ht
          exact ⟨hinv', hkeep _ _ _ _ hop.2.2 hI.2⟩)
      obtain ⟨hinv, hst⟩ := hnow
      obtain ⟨sh', booking, hdone, hend', hfreed⟩ := hinv.rested.cancel hst now₁
      have hready : sh'.Ready := by
        obtain ⟨n, hn⟩ := hdone
        have hrun' := hn (List.replicate n .none) (Nat.le_of_eq List.length_replicate.symm)
          (fun f hf => List.eq_of_mem_replicate hf)
        refine (hinv.rested.call (fun f hf => ?_) hrun').1.ready
        rw [List.eq_of_mem_replicate hf]
        exact ⟨(EngineFault.none_within True).1, fun _ => rfl⟩
      refine ⟨sh', hdone, hfreed, fun hs => ?_, fun user' now₂ hactive hroom =>
        hfreed.rebook hinv.rested hst hready hcan hactive hroom user'⟩
      subst hs
      rw [hend', hshared]
      have hperm := (cancelSeats_perm (hinv.rested.few hst)).trans hst.rows
      rw [hshared] at hperm
      refine free_markSeats inv.unowned (fun x => ?_) (fun x hx => ?_)
      · rw [hperm.mem_iff, List.take_length]
        exact (seats_perm user event ids).mem_iff.symm
      · rw [List.take_length] at hx
        obtain ⟨seat, hseat, -, hav⟩ := hcan.free x ((seats_perm user event ids).mem_iff.mp hx)
        exact ⟨seat, hseat, hav⟩

/-- A seat is booked, another user books its neighbour, a third finds no memory for a lock, and the
first booking is cancelled. -/
theorem cancel_undoes_book_neighbour : ∃ s₀ sh₁ s sh',
    Reachable (ticketStep noFloats) (fun _ op => op.StorageFine ∧ op.CancelLocks)
        (Server.empty (.empty 1) authCreate (shmStatsCreate 0)) s₀ ∧
      bookingBookSeats s₀.shared 3 1 [2] 0 (List.replicate 30 .none) = some (sh₁, .ok, some 1) ∧
      Reachable (ticketStep noFloats) (fun _ op => op.StorageFine ∧ op.CancelLocks ∧ op.Spares 1 3)
        (s₀.withShared sh₁) s ∧
      s.shared.Completes (.cancel 1 3) 0 sh' .ok none ∧ FreedSeats s.shared.db sh'.db 1 3 [2] := by
  let create : TicketOp := .create [] [] [] [] 5 1 3 0 (fun _ => .none)
  let later : List TicketOp := [.book 4 1 [1] 0 (List.replicate 30 .none),
    .book 5 1 [3] 0 (List.replicate 30 .starved)]
  have hbooked : ∀ f ∈ List.replicate 30 EngineFault.none, f.StorageFine := by
    simp [EngineFault.StorageFine, EngineFault.none]
  have hlater : ∀ op ∈ later, op.StorageFine ∧ op.CancelLocks ∧ op.Spares 1 3 := by
    simp [later, TicketOp.StorageFine, TicketOp.CancelLocks, TicketOp.Spares, EngineFault.StorageFine,
      EngineFault.none, EngineFault.starved]
  have hrun : (ticketStep noFloats (Server.empty (.empty 1) authCreate (shmStatsCreate 0)) create).any
      (fun s₀ => (bookingBookSeats s₀.shared 3 1 [2] 0 (List.replicate 30 .none)).any
        (fun r => r.2.1 == .ok && r.2.2 == some 1 &&
          (runSteps (ticketStep noFloats) (fun _ _ => true) (s₀.withShared r.1) later).isSome)) =
        true := by
    decide +kernel
  obtain ⟨s₀, hs₀, hbook⟩ := (Option.any_eq_true _ _).mp hrun
  obtain ⟨⟨sh₁, rc, out⟩, hr, hcheck⟩ := (Option.any_eq_true _ _).mp hbook
  simp only [Bool.and_eq_true, beq_iff_eq] at hcheck
  obtain ⟨⟨rfl, rfl⟩, hsome⟩ := hcheck
  obtain ⟨s, hs⟩ := Option.isSome_iff_exists.mp hsome
  have hreach : Reachable (ticketStep noFloats) (fun _ op => op.StorageFine ∧ op.CancelLocks)
      (Server.empty (.empty 1) authCreate (shmStatsCreate 0)) s₀ :=
    .tail create .refl ⟨fun _ => rfl, trivial⟩ hs₀
  have hreach' := Reachable.of_labels hlater hs
  obtain ⟨sh', hdone, hfreed, -⟩ :=
    (cancel_undoes_book hreach).2 3 1 [2] 0 _ sh₁ 1 hbooked hr s hreach' 0
  exact ⟨s₀, sh₁, s, sh', hreach, hr, hreach', hdone, hfreed⟩

/-- Two seats are booked together, and the cancellation of the booking finds no memory for the lock of
the second: it fails, and yet the first seat is free. -/
theorem half_cancelled_call :
    ¬ ∀ s₀, Reachable (ticketStep noFloats) (fun _ op => op.StorageFine)
        (Server.empty (.empty 1) authCreate (shmStatsCreate 0)) s₀ →
      ∀ user event ids sh₁ b,
        bookingBookSeats s₀.shared user event ids 0 (List.replicate 30 .none) =
          some (sh₁, .ok, some b) →
        ∀ faults : List EngineFault, (∀ f ∈ faults, f.StorageFine) → ∀ sh' rc out,
          bookingCancel sh₁ b user 0 faults = some (sh', rc, out) →
          rc = .ok ∨ sh'.db.seats = sh₁.db.seats := by
  intro hall
  let create : TicketOp := .create [] [] [] [] 5 1 2 0 (fun _ => .none)
  let faults : List EngineFault := List.replicate 12 .none ++ .starved :: List.replicate 10 .none
  have hfaults : ∀ f ∈ faults, f.StorageFine := by
    simp [faults, EngineFault.StorageFine, EngineFault.none, EngineFault.starved]
  have hrun : (ticketStep noFloats (Server.empty (.empty 1) authCreate (shmStatsCreate 0)) create).any
      (fun s₀ => (bookingBookSeats s₀.shared 7 1 [1, 2] 0 (List.replicate 30 .none)).any
        (fun r => r.2.1 == .ok && r.2.2 == some 1 &&
          (bookingCancel r.1 1 7 0 faults).any fun r' => r'.2.1 != .ok &&
            (r.1.db.seats.get? 1).any (fun seat => seat.status == .booked) &&
            (r'.1.db.seats.get? 1).any (fun seat => seat.status == .available))) = true := by
    decide +kernel
  obtain ⟨s₀, hs₀, hbook⟩ := (Option.any_eq_true _ _).mp hrun
  obtain ⟨⟨sh₁, rc, out⟩, hr, hcheck⟩ := (Option.any_eq_true _ _).mp hbook
  simp only [Bool.and_eq_true, beq_iff_eq] at hcheck
  obtain ⟨⟨rfl, rfl⟩, hcancel⟩ := hcheck
  obtain ⟨⟨sh', rc, out⟩, hr', hcheck⟩ := (Option.any_eq_true _ _).mp hcancel
  simp only [Bool.and_eq_true, bne_iff_ne, ne_eq] at hcheck
  obtain ⟨⟨hrc, hbefore⟩, hafter⟩ := hcheck
  rcases hall s₀ (.tail create .refl (fun _ => rfl) hs₀) 7 1 [1, 2] sh₁ 1 hr faults hfaults sh' rc
    out hr' with hok | hsame
  · exact hrc hok
  · rw [hsame] at hafter
    obtain ⟨seat, hseat, hfree⟩ := (Option.any_eq_true _ _).mp hafter
    obtain ⟨seat', hseat', htaken⟩ := (Option.any_eq_true _ _).mp hbefore
    rw [hseat] at hseat'
    cases hseat'
    rw [beq_iff_eq] at hfree htaken
    rw [hfree] at htaken
    cases htaken

end Undo

end Ticketing
