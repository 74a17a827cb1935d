import Ticketing.Core.BookingCalls
import Ticketing.Core.BookingWrap

/-!
# A booking is cancelled at most once

`booking_cancel` reads the booking after it has locked it, and keeps the lock until it returns.  A
call that has read `BOOKING_CONFIRMED` therefore knows that nobody else has cancelled the booking
and that nobody can while it goes on.

* `CancelOk` — what a cancellation knows where it stands; `Pc.OfCancel` says where it can stand.
* `Proc.cancelled` — the booking a call has cancelled.
* `CancelInv`, `cancelInv_step` — one step of any call keeps all that.
* `CancelOnce`, `cancelled_once` — whole runs, as long as storage works and transaction ids are
  fresh.  Allocation, log and flush may fail at any point.
* `wrapped_id_cancels_twice` — what happens when a transaction id is used twice.
-/

set_option autoImplicit false

namespace Ticketing

/-! ## What a cancellation knows -/

/-- The booking is cancelled. -/
def Db.Cancelled (db : Db) (b : Nat) : Prop :=
  ∃ r, db.bookings.get? b = some r ∧ r.status = .cancelled

/-- The record read under the lock still stands. -/
structure Reads (db : Db) (own : List LockKey) (b : Nat) (booking : BookingRecord) : Prop where
  locked : bookingKey b ∈ own
  found : db.bookings.get? b = some booking
  confirmed : booking.status = .confirmed

/-- What holds of the tables where a cancellation stands. -/
def CancelOk (db : Db) (own : List LockKey) (c : Call) : Pc → Prop
  | .lock .register _ .cancelBooking => bookingKey c.bookingId ∈ own
  | .lock _ _ (.cancelSeat booking _ _) => Reads db own c.bookingId booking
  | .table _ .cancelFind => bookingKey c.bookingId ∈ own
  | .table _ (.cancelScan booking) => Reads db own c.bookingId booking
  | .table _ (.cancelFindSeat booking _ _) => Reads db own c.bookingId booking
  | .table _ (.cancelUpdateSeat booking _ _ _) => Reads db own c.bookingId booking
  | .table _ (.cancelUpdateBooking booking _) => Reads db own c.bookingId booking
  | _ => True

/-- Where a cancellation can stand: at none of the points of a booking, and it never gives up with
`ETP_OK`. -/
def Pc.OfCancel : Pc → Prop
  | .begin none => True
  | .lock _ _ .cancelBooking => True
  | .lock _ _ (.cancelSeat _ _ _) => True
  | .table _ .cancelFind => True
  | .table _ (.cancelScan _) => True
  | .table _ (.cancelFindSeat _ _ _) => True
  | .table _ (.cancelUpdateSeat _ _ _ _) => True
  | .table _ (.cancelUpdateBooking _ _) => True
  | .commit _ _ => True
  | .abort _ rc => rc ≠ .ok
  | .release _ _ _ => True
  | _ => False

/-- The booking a call has cancelled: it has written `BOOKING_CANCELLED` and will return `ETP_OK`,
or has returned it. -/
def Proc.cancelled : Proc → Option Nat
  | .running (.cancel b _) (.commit _ _) => some b
  | .running (.cancel b _) (.release _ .ok _) => some b
  | .done (.cancel b _) .ok _ => some b
  | _ => none

/-! ## One step -/

section OwnStep

variable {db db' : Db} {own own' : List LockKey} {c : Call} {env : Env} {free : LockKey → Prop}
  {full : Prop} {pc pc' : Pc} {next : Next}

/-- What a step does to a booking: nothing, insert it, or cancel it if it was confirmed. -/
theorem booking_forward (hst : env.storage = .ok) (h : CancelOk db own c pc)
    (hs : IdealStep c env free full db own pc db' own' next) (b : Nat) :
    db'.bookings.get? b = db.bookings.get? b ∨ db.bookings.get? b = none ∨
      ∃ booking txn rows, b = c.bookingId ∧ Reads db own b booking ∧
        pc = .table txn (.cancelUpdateBooking booking rows) ∧
        db'.bookings.get? b = some { booking with status := .cancelled } := by
  cases hs with
  | start hb =>
    obtain ⟨rfl, -⟩ := bookStart_fine hst hb
    exact Or.inl rfl
  | table ht =>
    cases tableStep_effect hst ht with
    | inserted _ =>
      by_cases hb : b = db.bookings.nextId
      · subst hb
        exact Or.inr (Or.inl (OTable.get?_eq_none (Nat.le_refl _)))
      · exact Or.inl (OTable.get?_insert_ne hb)
    | @cancelled booking _ rows hg =>
      by_cases hb : b = c.bookingId
      · subst hb
        exact Or.inr (Or.inr ⟨booking, _, rows, rfl, h, rfl, OTable.get?_update_self hg⟩)
      · exact Or.inl (OTable.get?_update_ne hb)
    | _ => exact Or.inl rfl
  | _ => exact Or.inl rfl

/-- A cancelled booking stays cancelled. -/
theorem cancelled_stays (hst : env.storage = .ok) (h : CancelOk db own c pc)
    (hs : IdealStep c env free full db own pc db' own' next) {b : Nat} (hb : db.Cancelled b) :
    db'.Cancelled b := by
  obtain ⟨r, hr, hcancelled⟩ := hb
  rcases booking_forward hst h hs b with hsame | hnone | ⟨booking, txn, rows, -, -, -, hafter⟩
  · exact ⟨r, by rw [hsame, hr], hcancelled⟩
  · rw [hr] at hnone
    cases hnone
  · exact ⟨_, hafter, rfl⟩

/-- A call that has read a confirmed booking has not cancelled it yet. -/
theorem Reads.not_cancelled {b : Nat} {booking : BookingRecord} (h : Reads db own b booking) :
    ¬ db.Cancelled b := by
  rintro ⟨r, hr, hcancelled⟩
  have hfound := h.found
  rw [hr, Option.some.injEq] at hfound
  rw [hfound, h.confirmed] at hcancelled
  cases hcancelled

theorem Reads.mono {b : Nat} {booking : BookingRecord} (h : Reads db own b booking)
    (hsub : own ⊆ own') : Reads db own' b booking :=
  ⟨hsub h.locked, h.found, h.confirmed⟩

theorem cancelOk_bookLockLoop (evt : EventRecord) (txn : UInt32) (i : Nat) :
    CancelOk db own c (bookLockLoop c evt txn i) := by
  unfold bookLockLoop bookVerifyLoop
  split
  · trivial
  · split <;> trivial

theorem cancelOk_cancelSeatLoop {booking : BookingRecord} (txn : UInt32)
    (rows : List BookingSeatRecord) (i : Nat) (h : Reads db own c.bookingId booking) :
    CancelOk db own c (cancelSeatLoop txn booking rows i) := by
  unfold cancelSeatLoop
  split <;> exact h

theorem cancelOk_afterLock {stage : LockStage} {txn : UInt32} {site : LockSite}
    (hkey : site = .cancelBooking → bookingKey c.bookingId ∈ own)
    (h : CancelOk db own c (.lock stage txn site)) : CancelOk db own c (afterLock c txn site) := by
  cases site with
  | bookSeat evt i => exact cancelOk_bookLockLoop evt txn (i + 1)
  | cancelBooking => exact hkey rfl
  | cancelSeat booking rows i => cases stage <;> exact h

/-- The own step of a call keeps what it knows. -/
theorem cancelOk_step (hst : env.storage = .ok) (h : CancelOk db own c pc)
    (hs : IdealStep c env free full db own pc db' own' (.goto pc')) : CancelOk db' own' c pc' := by
  generalize hn : Next.goto pc' = next at hs
  cases hs with
  | start hb =>
    obtain ⟨-, hcase⟩ := bookStart_fine hst hb
    subst hn
    rcases hcase with ⟨-, h⟩ | ⟨-, -, h⟩ | ⟨-, evt, -, ⟨-, h⟩ | ⟨-, h⟩⟩
    · cases h
    · cases h
    · cases h
    · injection h with h
      subst h
      trivial
  | beginFull _ => cases hn
  | @begin evt txn =>
    injection hn with hn
    subst hn
    cases evt with
    | none => trivial
    | some evt => exact cancelOk_bookLockLoop evt txn 0
  | @held txn site hkey =>
    injection hn with hn
    subst hn
    refine cancelOk_afterLock ?_ h
    rintro rfl
    exact hkey
  | refused _ _ => injection hn with hn; subst hn; trivial
  | @check txn site _ =>
    injection hn with hn
    subst hn
    cases site <;> exact h
  | noMemory _ => injection hn with hn; subst hn; trivial
  | @acquire txn site _ =>
    injection hn with hn
    subst hn
    cases site with
    | bookSeat evt i => trivial
    | cancelBooking => exact List.mem_append_right _ (List.mem_singleton.mpr rfl)
    | cancelSeat booking rows i => exact Reads.mono h (List.subset_append_left _ _)
  | register =>
    injection hn with hn
    subst hn
    refine cancelOk_afterLock ?_ h
    rintro rfl
    exact h
  | @table txn ts _ _ ht =>
    injection hn with hn
    subst hn
    cases tableStep_effect hst ht with
    | verified _ => unfold bookVerifyLoop; split <;> trivial
    | inserted _ => unfold bookSeatLoop; split <;> trivial
    | seatBooked _ => unfold bookSeatLoop; split <;> trivial
    | bookingFound hg _ hconf => exact ⟨h, hg, hconf⟩
    | scanned => exact cancelOk_cancelSeatLoop txn _ 0 h
    | @skipped booking rows i _ => exact cancelOk_cancelSeatLoop txn rows (i + 1) h
    | toRelease _ => exact h
    | @released booking rows i _ _ _ =>
      have hr : Reads db own c.bookingId booking := h
      exact cancelOk_cancelSeatLoop txn rows (i + 1) ⟨hr.locked, hr.found, hr.confirmed⟩
    | _ => trivial
  | commitFail _ => injection hn with hn; subst hn; trivial
  | commit => injection hn with hn; subst hn; trivial
  | abort => injection hn with hn; subst hn; trivial
  | unlock => injection hn with hn; subst hn; trivial
  | ret => cases hn

theorem cancelSeatLoop_ofCancel (txn : UInt32) (booking : BookingRecord)
    (rows : List BookingSeatRecord) (i : Nat) : (cancelSeatLoop txn booking rows i).OfCancel := by
  unfold cancelSeatLoop
  split <;> trivial

theorem afterLock_ofCancel {stage : LockStage} {txn : UInt32} {site : LockSite}
    (h : (Pc.lock stage txn site).OfCancel) : (afterLock c txn site).OfCancel := by
  cases site with
  | bookSeat evt i => cases stage <;> cases h
  | cancelBooking => trivial
  | cancelSeat booking rows i => trivial

/-- A cancellation stays among its own program points. -/
theorem ofCancel_step (hst : env.storage = .ok) (h : pc.OfCancel)
    (hs : IdealStep c env free full db own pc db' own' (.goto pc')) : pc'.OfCancel := by
  generalize hn : Next.goto pc' = next at hs
  cases hs with
  | start _ => cases h
  | beginFull _ => cases hn
  | @begin evt txn =>
    injection hn with hn
    subst hn
    cases evt with
    | none => trivial
    | some evt => cases h
  | held _ => injection hn with hn; subst hn; exact afterLock_ofCancel h
  | refused _ _ => injection hn with hn; subst hn; exact (nofun : EtpResult.errGeneric ≠ .ok)
  | @check txn site _ => injection hn with hn; subst hn; cases site <;> exact h
  | noMemory _ => injection hn with hn; subst hn; exact (nofun : EtpResult.errGeneric ≠ .ok)
  | @acquire txn site _ => injection hn with hn; subst hn; cases site <;> exact h
  | register => injection hn with hn; subst hn; exact afterLock_ofCancel h
  | @table txn ts _ _ ht =>
    injection hn with hn
    subst hn
    cases tableStep_effect hst ht with
    | findAbort hrc => exact hrc
    | bookingFound _ _ _ => trivial
    | scanned => exact cancelSeatLoop_ofCancel txn _ _ 0
    | @skipped booking rows i _ => exact cancelSeatLoop_ofCancel txn booking rows (i + 1)
    | toRelease _ => trivial
    | releaseLost _ => exact (nofun : EtpResult.errIo ≠ .ok)
    | @released booking rows i _ _ _ => exact cancelSeatLoop_ofCancel txn booking rows (i + 1)
    | bookingLost _ => exact (nofun : EtpResult.errIo ≠ .ok)
    | cancelled _ => trivial
    | _ => cases h
  | commitFail _ => injection hn with hn; subst hn; exact (nofun : EtpResult.errIo ≠ .ok)
  | commit => injection hn with hn; subst hn; trivial
  | abort => injection hn with hn; subst hn; trivial
  | unlock => injection hn with hn; subst hn; trivial
  | ret => cases hn

/-- A cancellation that has cancelled its booking after a step had done so before, or the step was
the update of the booking. -/
theorem cancelled_step (hst : env.storage = .ok) {b u : Nat} (h : pc.OfCancel)
    (hs : IdealStep (.cancel b u) env free full db own pc db' own' next) {b' : Nat}
    (hb : (next.proc (.cancel b u)).cancelled = some b') :
    (Proc.running (.cancel b u) pc).cancelled = some b' ∨
      ∃ txn booking rows, b' = b ∧ pc = .table txn (.cancelUpdateBooking booking rows) ∧
        db'.bookings.get? b = some { booking with status := .cancelled } := by
  cases hs with
  | start _ => cases h
  | beginFull _ => cases hb
  | @begin evt txn =>
    cases evt with
    | none => cases hb
    | some evt => cases h
  | @held txn site _ =>
    cases site with
    | bookSeat evt i => cases h
    | _ => cases hb
  | refused _ _ => cases hb
  | check _ => cases hb
  | noMemory _ => cases hb
  | acquire _ => cases hb
  | @register txn site =>
    cases site with
    | bookSeat evt i => cases h
    | _ => cases hb
  | @table txn ts _ _ ht =>
    cases tableStep_effect hst ht with
    | cancelled hg =>
      cases hb
      exact Or.inr ⟨_, _, _, rfl, rfl, OTable.get?_update_self hg⟩
    | findAbort _ => cases hb
    | bookingFound _ _ _ => cases hb
    | scanned =>
      simp only [cancelSeatLoop] at hb
      split at hb <;> cases hb
    | skipped _ =>
      simp only [cancelSeatLoop] at hb
      split at hb <;> cases hb
    | toRelease _ => cases hb
    | releaseLost _ => cases hb
    | released _ =>
      simp only [cancelSeatLoop] at hb
      split at hb <;> cases hb
    | bookingLost _ => cases hb
    | _ => cases h
  | commitFail _ => cases hb
  | commit => exact Or.inl hb
  | @abort txn rc =>
    -- a cancellation does not abort with `ETP_OK`
    cases rc with
    | ok => exact absurd rfl h
    | _ => cases hb
  | @unlock key keys rc out => exact Or.inl (by cases rc <;> exact hb)
  | @ret rc out => exact Or.inl (by cases rc <;> exact hb)

/-- A cancellation of a cancelled booking changes no seat. -/
theorem seats_quiet (hst : env.storage = .ok) (hpc : pc.OfCancel) (h : CancelOk db own c pc)
    (hs : IdealStep c env free full db own pc db' own' next) (hb : db.Cancelled c.bookingId) :
    db'.seats = db.seats := by
  cases hs with
  | start _ => cases hpc
  | table ht =>
    cases tableStep_effect hst ht with
    | seatBooked _ => cases hpc
    | released _ => exact absurd hb (Reads.not_cancelled h)
    | _ => rfl
  | _ => rfl

/-! ## The steps of the others -/

theorem Reads.stable {b : Nat} {booking : BookingRecord} (h : Reads db own b booking)
    (hsame : db'.bookings.get? b = db.bookings.get? b) : Reads db' own b booking :=
  ⟨h.locked, by rw [hsame]; exact h.found, h.confirmed⟩

/-- What a call knows survives steps that leave the bookings it has locked alone. -/
theorem CancelOk.stable (h : CancelOk db own c pc)
    (hsame : ∀ b booking, Reads db own b booking → db'.bookings.get? b = db.bookings.get? b) :
    CancelOk db' own c pc := by
  have key : ∀ booking, Reads db own c.bookingId booking → Reads db' own c.bookingId booking :=
    fun booking hr => hr.stable (hsame _ booking hr)
  cases pc with
  | lock stage txn site =>
    cases site with
    | bookSeat evt i => cases stage <;> trivial
    | cancelBooking => cases stage <;> exact h
    | cancelSeat booking rows i => cases stage <;> exact key booking h
  | table txn ts =>
    cases ts with
    | cancelFind => exact h
    | cancelScan booking => exact key booking h
    | cancelFindSeat booking rows i => exact key booking h
    | cancelUpdateSeat booking rows i seat => exact key booking h
    | cancelUpdateBooking booking rows => exact key booking h
    | _ => trivial
  | _ => trivial

end OwnStep

/-! ## The invariant -/

/-- Every cancellation knows what it should, and no booking has been cancelled by two of them. -/
structure CancelInv (s : Ideal) : Prop where
  calls : ∀ i c pc, s.procs i = .running c pc → CancelOk s.db (s.own i) c pc
  points : ∀ i b u pc, s.procs i = .running (.cancel b u) pc → pc.OfCancel
  cancelled : ∀ i b, (s.procs i).cancelled = some b → s.db.Cancelled b
  once : ∀ i j b, (s.procs i).cancelled = some b → (s.procs j).cancelled = some b → i = j

theorem cancelInv_init (db : Db) : CancelInv (Ideal.init db) := by
  refine ⟨?_, ?_, ?_, ?_⟩
  · intro i c pc hp
    cases hp
  · intro i b u pc hp
    cases hp
  · intro i b hp
    cases hp
  · intro i j b hp
    cases hp

/-- Storage works in this step. -/
def StorageOk : Action → Prop
  | .start _ _ => True
  | .run _ env => env.storage = .ok

section Steps

variable {w : World} {s s' : Ideal} {a : Action}

/-- A call that has just started knows nothing and has cancelled nothing. -/
theorem CancelInv.start (inv : CancelInv s) {i : Nat} {c : Call} :
    CancelInv { s with procs := Function.update s.procs i (.running c c.entry) } := by
  have hentry : (Proc.running c c.entry).cancelled = none := by cases c <;> rfl
  have hbefore : ∀ {j b}, (Function.update s.procs i (.running c c.entry) j).cancelled = some b →
      (s.procs j).cancelled = some b := by
    intro j b hj
    by_cases hji : j = i
    · subst hji
      rw [Function.update_self, hentry] at hj
      cases hj
    · rwa [Function.update_of_ne hji] at hj
  refine ⟨?_, ?_, ?_, ?_⟩
  · intro j d pc hp
    by_cases hji : j = i
    · subst hji
      simp only [Function.update_self, Proc.running.injEq] at hp
      obtain ⟨rfl, rfl⟩ := hp
      cases c <;> trivial
    · simp only [Function.update_of_ne hji] at hp
      exact inv.calls j d pc hp
  · intro j b u pc hp
    by_cases hji : j = i
    · subst hji
      simp only [Function.update_self, Proc.running.injEq] at hp
      obtain ⟨rfl, rfl⟩ := hp
      trivial
    · simp only [Function.update_of_ne hji] at hp
      exact inv.points j b u pc hp
  · intro j b hj
    exact inv.cancelled j b (hbefore hj)
  · intro j k b hj hk
    exact inv.once j k b (hbefore hj) (hbefore hk)

/-- **Steps with working storage** keep the invariant. -/
theorem cancelInv_step (hsim : Sim w s) (hst : StorageOk a) (inv : CancelInv s) (hs : s.Step a s') :
    CancelInv s' := by
  cases hs with
  | start _ => exact inv.start
  | @run i env c pc db' own' next hi hstep =>
    have hok := inv.calls i c pc hi
    -- a call that has cancelled its booking after the step had done so before, or has just done it
    have hbefore : ∀ {j b}, (Function.update s.procs i (next.proc c) j).cancelled = some b →
        (s.procs j).cancelled = some b ∨
          (j = i ∧ ¬ s.db.Cancelled b ∧ db'.Cancelled b) := by
      intro j b hj
      by_cases hji : j = i
      · subst hji
        rw [Function.update_self] at hj
        cases c with
        | book userId eventId seatIds =>
          cases next with
          | goto pc' => cases hj
          | ret rc out => cases hj
        | cancel b' u =>
          rcases cancelled_step hst (inv.points j b' u pc hi) hstep hj with
            hpre | ⟨txn, booking, rows, rfl, rfl, hafter⟩
          · exact Or.inl (by rw [hi]; exact hpre)
          · have hr : Reads s.db (s.own j) b booking := hok
            exact Or.inr ⟨rfl, hr.not_cancelled, _, hafter, rfl⟩
      · rw [Function.update_of_ne hji] at hj
        exact Or.inl hj
    refine ⟨?_, ?_, ?_, ?_⟩
    · intro j d q hj
      by_cases hji : j = i
      · subst hji
        simp only [Function.update_self] at hj ⊢
        cases next with
        | ret rc out => cases hj
        | goto pc' =>
          injection hj with hc hpc
          subst hc hpc
          exact cancelOk_step hst hok hstep
      · simp only [Function.update_of_ne hji] at hj ⊢
        refine (inv.calls j d q hj).stable ?_
        intro b booking hr
        rcases booking_forward hst hok hstep b with hsame | hnone | ⟨_, _, _, -, hr', -⟩
        · exact hsame
        · rw [hr.found] at hnone
          cases hnone
        · exact absurd (hsim.inv.disjoint j i _ hr.locked hr'.locked) hji
    · intro j b u q hj
      by_cases hji : j = i
      · subst hji
        simp only [Function.update_self] at hj
        cases next with
        | ret rc out => cases hj
        | goto pc' =>
          injection hj with hc hpc
          subst hc hpc
          exact ofCancel_step hst (inv.points j b u pc hi) hstep
      · simp only [Function.update_of_ne hji] at hj
        exact inv.points j b u q hj
    · intro j b hj
      rcases hbefore hj with hpre | ⟨-, -, hnow⟩
      · exact cancelled_stays hst hok hstep (inv.cancelled j b hpre)
      · exact hnow
    · intro j k b hj hk
      rcases hbefore hj with hjb | ⟨hji, hnot, -⟩
      · rcases hbefore hk with hkb | ⟨-, hnot, -⟩
        · exact inv.once j k b hjb hkb
        · exact absurd (inv.cancelled j b hjb) hnot
      · rcases hbefore hk with hkb | ⟨hki, -, -⟩
        · exact absurd (inv.cancelled k b hkb) hnot
        · rw [hji, hki]

end Steps

/-! ## Whole runs -/

/-- In the runs from `db` whose steps meet `ok`: at most one cancellation of a booking returns
`ETP_OK`; the status of a booking changes only from confirmed to cancelled; and once a cancellation
has returned `ETP_OK`, no step of a cancellation of that booking changes a seat. -/
structure CancelOnce (ok : World → Action → Prop) (db : Db) : Prop where
  once : ∀ w, Reachable step ok (World.init db) w → ∀ i j b u v out out',
    w.procs i = .done (.cancel b u) .ok out → w.procs j = .done (.cancel b v) .ok out' → i = j
  forward : ∀ w a w', Reachable step ok (World.init db) w → ok w a → step w a = some w' →
    ∀ b r, w.db.bookings.get? b = some r → ∃ r', w'.db.bookings.get? b = some r' ∧
      (r'.status = r.status ∨ r.status = .confirmed ∧ r'.status = .cancelled)
  quiet : ∀ w a w', Reachable step ok (World.init db) w → ok w a → step w a = some w' →
    ∀ i b u out, w.procs i = .done (.cancel b u) .ok out →
      ∀ v pc, w.procs a.proc = .running (.cancel b v) pc → w'.db.seats = w.db.seats

/-- **A booking is cancelled at most once**, from any tables, whatever the calls and the
interleaving, as long as storage works and transaction ids are fresh. -/
theorem cancelled_once (db : Db) : CancelOnce (fun w a => StorageOk a ∧ FreshTxn w a) db := by
  have hinv : ∀ {w}, Reachable step (fun w a => StorageOk a ∧ FreshTxn w a) (World.init db) w →
      ∃ s, Sim w s ∧ CancelInv s := fun h =>
    Sim.reachable (I := CancelInv) (fun _ _ h => h.2) (cancelInv_init db)
      (fun _ _ _ _ hsim hok inv hs => cancelInv_step hsim hok.1 inv hs) h
  refine ⟨?_, ?_, ?_⟩
  · intro w h i j b u v out out' hi hj
    obtain ⟨s, hsim, inv⟩ := hinv h
    rw [← hsim.procs] at hi hj
    exact inv.once i j b (by rw [hi]; rfl) (by rw [hj]; rfl)
  · intro w a w' h hok hs b r hr
    obtain ⟨s, hsim, inv⟩ := hinv h
    obtain ⟨s', hstep, hsim'⟩ := hsim.step hok.2 hs
    rw [← hsim.db] at hr
    rw [← hsim'.db]
    cases hstep with
    | start _ => exact ⟨r, hr, Or.inl rfl⟩
    | @run i env c pc db' own' next hi hrun =>
      rcases booking_forward hok.1 (inv.calls i c pc hi) hrun b with
        hsame | hnone | ⟨booking, _, _, -, hreads, -, hafter⟩
      · exact ⟨r, by rw [hsame, hr], Or.inl rfl⟩
      · rw [hr] at hnone
        cases hnone
      · have hfound := hreads.found
        rw [hr, Option.some.injEq] at hfound
        exact ⟨_, hafter, Or.inr ⟨by rw [hfound]; exact hreads.confirmed, rfl⟩⟩
  · intro w a w' h hok hs i b u out hi v pc hp
    obtain ⟨s, hsim, inv⟩ := hinv h
    obtain ⟨s', hstep, hsim'⟩ := hsim.step hok.2 hs
    rw [← hsim.procs] at hi hp
    rw [← hsim.db, ← hsim'.db]
    cases hstep with
    | start _ => rfl
    | @run j env c pc' db' own' next hj hrun =>
      rw [Action.proc, hj, Proc.running.injEq] at hp
      obtain ⟨rfl, rfl⟩ := hp
      exact seats_quiet hok.1 (inv.points j b v _ hj) (inv.calls j _ _ hj) hrun
        (inv.cancelled i b (by rw [hi]; rfl))

/-- The call has cancelled booking `b` and returned `ETP_OK`, to be evaluated. -/
def World.hasCancelled (w : World) (i b : Nat) : Bool :=
  match w.procs i with
  | .done (.cancel b' _) .ok _ => b' == b
  | _ => false

theorem done_of_hasCancelled {w : World} {i b : Nat} (h : w.hasCancelled i b = true) :
    ∃ u out, w.procs i = .done (.cancel b u) .ok out := by
  unfold World.hasCancelled at h
  split at h
  · rename_i b' u out hp
    rw [beq_iff_eq] at h
    exact ⟨u, out, by rw [hp, h]⟩
  · cases h

/-- The owner cancels a booking and the seat is booked again.  A second cancellation of the old booking is
refused, the new booking is cancelled by its own owner. -/
theorem cancelled_once_rebooked :
    ∃ w, Reachable step (fun w a => StorageOk a ∧ FreshTxn w a) (World.init smallDb) w ∧
      (w.hasCancelled 1 1 = true ∧ w.isDone 3 = true ∧ w.hasCancelled 4 2 = true) ∧
      ∀ j v out, w.procs j = .done (.cancel 1 v) .ok out → j = 1 := by
  have hrun : (runSteps step (fun w a => a.isStorageFine && w.isFresh a) (World.init smallDb)
      (.start 0 (.book 7 1 [1]) :: runs 0 13 ++ .start 1 (.cancel 1 7) :: runs 1 16 ++
        .start 2 (.book 8 1 [1]) :: runs 2 13 ++ .start 3 (.cancel 1 7) :: runs 3 8 ++
        .start 4 (.cancel 2 8) :: runs 4 16)).any
      (fun w => w.hasCancelled 1 1 && (w.isDone 3 && w.hasCancelled 4 2)) = true := by
    decide +kernel
  obtain ⟨w, hw, hcheck⟩ := (Option.any_eq_true _ _).mp hrun
  simp only [Bool.and_eq_true] at hcheck
  have hreach : Reachable step (fun w a => StorageOk a ∧ FreshTxn w a) (World.init smallDb) w := by
    refine Reachable.of_runSteps ?_ hw
    intro w a h
    rw [Bool.and_eq_true] at h
    have hst : StorageOk a := by
      cases a with
      | start i c => trivial
      | run i env => exact (storageFine_of_isStorageFine h.1).1
    exact ⟨hst, freshTxn_of_isFresh h.2⟩
  obtain ⟨u, out, hfirst⟩ := done_of_hasCancelled hcheck.1
  refine ⟨w, hreach, hcheck, fun j v out' hj => ?_⟩
  exact (cancelled_once smallDb).once w hreach j 1 1 v u out' out hj hfirst

/-- Call 2 has begun its cancellation of booking 1 under id 3 in the second slot when call 3 begins
another one under id 3 in the first slot.  The lock call 2 takes is registered in the slot of call 3,
which then passes for holding it: both read the booking as confirmed, and both return `ETP_OK`. -/
theorem wrapped_id_cancels_twice : ¬ ∀ db, CancelOnce (fun _ a => NoFault a) db := by
  intro hall
  have hrun : (wrapCalls 4
      (.start 0 (.book 7 1 [1]) :: runs 0 13 ++ .start 1 refusedCall :: runs 1 2 ++
        .start 2 (.cancel 1 7) :: runs 2 1 ++ runs 1 7)
      ⟨0, by decide⟩ 3
      (.start 3 (.cancel 1 7) :: runs 3 1 ++ runs 2 3 ++ runs 3 2 ++ runs 2 1 ++ runs 3 11 ++
        runs 2 10)).any (fun w => w.hasCancelled 2 1 && w.hasCancelled 3 1) = true := by
    decide +kernel
  obtain ⟨w, hw, hcheck⟩ := (Option.any_eq_true _ _).mp hrun
  rw [Bool.and_eq_true] at hcheck
  obtain ⟨u, out, h2⟩ := done_of_hasCancelled hcheck.1
  obtain ⟨v, out', h3⟩ := done_of_hasCancelled hcheck.2
  have hsame := (hall smallDb).once w (wrapCalls_reachable (by decide) (by decide) hw) 2 3 1 u v
    out out' h2 h3
  cases hsame

end Ticketing
