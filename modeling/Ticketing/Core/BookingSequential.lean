import Ticketing.Core.BookingCalls
import Ticketing.Storage.TableCalls

/-!
# Engine calls without interruption

`handle_command` runs `booking_book_seats` and `booking_cancel` to their end.  `runCall` takes the
steps of one call one after another, with a fault for each step: a table call that fails leaves the
tables as they were or as it would have left them.

* `EngineFault`, `callEnv` — what may go wrong in one step, and the environment it makes.
* `runCall`, `bookingBookSeats`, `bookingCancel` — the calls.
* `runCall_bookings` — whatever goes wrong, a call changes no booking but the one it cancels, and
  that only for the user who made it.
-/

set_option autoImplicit false

namespace Ticketing

/-- What happens to one step of a call. -/
structure EngineFault where
  table : TableFault
  lockAlloc : Bool
  logged : Bool
  flushed : Bool

/-- Nothing fails. -/
def EngineFault.none : EngineFault := ⟨.none, true, true, true⟩

/-- There is no memory for a lock entry. -/
def EngineFault.starved : EngineFault := ⟨.none, false, true, true⟩

/-- Storage and log do not fail; memory may. -/
def EngineFault.StorageFine (f : EngineFault) : Prop :=
  f.table = .none ∧ f.logged = true ∧ f.flushed = true

/-- The tables after a step in which storage does not fail. -/
def Shared.dbAfter (s : Shared) (c : Call) (pc : Pc) (now : Int) : Db :=
  ((pcStep c (Env.fine now) s pc).map fun r => r.1.db).getD s.db

/-- The junction rows a scan finds when it passes over some of them. -/
def junctionRows (c : Call) (s : Shared) (skipped : Nat → Bool) : List BookingSeatRecord :=
  ((s.db.bookingSeats.rows.filter (fun r => !skipped r.1)).map Prod.snd).filter
    (fun r => r.bookingId == c.bookingId)

/-- The environment of one step. -/
def callEnv (c : Call) (s : Shared) (pc : Pc) (now : Int) (f : EngineFault) : Env where
  now := now
  storage :=
    match f.table, pc with
    | .error rc applied, _ => .error (if applied then s.dbAfter c pc now else s.db) rc
    | .unread skipped, .table _ (.cancelScan _) => .scanned (junctionRows c s skipped)
    | _, _ => .ok
  lockAlloc := f.lockAlloc
  logged := f.logged
  flushed := f.flushed

/-- The steps of a call from `pc` on, until it returns; `none` if it does not return in as many
steps as there are faults given, or has to wait. -/
def runCall (c : Call) (now : Int) : List EngineFault → Shared → Pc →
    Option (Shared × EtpResult × Option Nat)
  | [], _, _ => none
  | f :: fs, s, pc =>
    match pcStep c (callEnv c s pc now f) s pc with
    | none => none
    | some (s', .goto pc') => runCall c now fs s' pc'
    | some (s', .ret rc out) => some (s', rc, out)

/-- `booking_book_seats`. -/
def bookingBookSeats (s : Shared) (userId eventId : Nat) (seatIds : List Nat) (now : Int)
    (faults : List EngineFault) : Option (Shared × EtpResult × Option Nat) :=
  runCall (.book userId eventId seatIds) now faults s (Call.book userId eventId seatIds).entry

/-- `booking_cancel`. -/
def bookingCancel (s : Shared) (bookingId userId : Nat) (now : Int) (faults : List EngineFault) :
    Option (Shared × EtpResult × Option Nat) :=
  runCall (.cancel bookingId userId) now faults s (Call.cancel bookingId userId).entry

/-- `booking_list_by_user`. -/
def bookingListByUser (bookings : OTable BookingRecord) (userId max : Nat) (fault : TableFault) :
    List (Nat × BookingRecord) :=
  scanRecords bookings (fun b => b.userId == userId && b.status == .confirmed) max fault

/-! ## What a call can do to the bookings -/

/-- The call is a cancellation. -/
def Call.isCancel : Call → Bool
  | .book _ _ _ => false
  | .cancel _ _ => true

/-- Storage and log do not fail, and a cancellation gets memory for its lock entries. -/
def EngineFault.FineFor (c : Call) (f : EngineFault) : Prop :=
  f.StorageFine ∧ (c.isCancel = true → f.lockAlloc = true)

theorem Call.eq_cancel {c : Call} (h : c.isCancel = true) : c = .cancel c.bookingId c.userId := by
  cases c with
  | book u e l => cases h
  | cancel b u => rfl

/-- Whether a program point belongs to a cancellation, where it belongs to one kind of call only. -/
def Pc.ofCancel : Pc → Option Bool
  | .bookStart => some false
  | .begin evt => some evt.isNone
  | .lock _ _ (.bookSeat _ _) => some false
  | .lock _ _ _ => some true
  | .table _ (.bookVerify _ _) => some false
  | .table _ (.bookInsert _) => some false
  | .table _ (.bookJunction _ _) => some false
  | .table _ (.bookFindSeat _ _) => some false
  | .table _ (.bookUpdateSeat _ _ _) => some false
  | .table _ _ => some true
  | _ => none

/-- The record a cancellation has read. -/
def Pc.read? : Pc → Option BookingRecord
  | .lock _ _ (.cancelSeat booking _ _) => some booking
  | .table _ (.cancelScan booking) => some booking
  | .table _ (.cancelFindSeat booking _ _) => some booking
  | .table _ (.cancelUpdateSeat booking _ _ _) => some booking
  | .table _ (.cancelUpdateBooking booking _) => some booking
  | _ => none

/-- The call stands at a point of its own kind, and the record it has read is the one stored, of its
own user. -/
structure Knows (c : Call) (bookings : OTable BookingRecord) (pc : Pc) : Prop where
  kind : ∀ k, pc.ofCancel = some k → c.isCancel = k
  read : ∀ b, pc.read? = some b → bookings.get? c.bookingId = some b ∧ b.userId = c.userId

/-- The bookings after some steps of a call: new ones are confirmed and come from a booking, old ones
stay as they are unless the call cancels them for their user. -/
structure KeptBy (c : Call) (before after : OTable BookingRecord) : Prop where
  rows : ∀ id r', after.get? id = some r' →
    (c.isCancel = false ∧ before.get? id = none ∧ r'.status = .confirmed) ∨
    ∃ r, before.get? id = some r ∧ (r' = r ∨ c = .cancel id r.userId ∧ r'.userId = r.userId)
  stay : ∀ id, after.get? id = none → before.get? id = none

section Kept

variable {c : Call} {b₀ b₁ b₂ : OTable BookingRecord}

theorem KeptBy.refl (c : Call) (b : OTable BookingRecord) : KeptBy c b b :=
  ⟨fun _ r' h => Or.inr ⟨r', h, Or.inl rfl⟩, fun _ h => h⟩

theorem KeptBy.trans (h : KeptBy c b₀ b₁) (h' : KeptBy c b₁ b₂) : KeptBy c b₀ b₂ := by
  refine ⟨fun id r₂ hr₂ => ?_, fun id hid => h.stay id (h'.stay id hid)⟩
  obtain ⟨hc, hnone, hst⟩ | ⟨r₁, hr₁, hcase⟩ := h'.rows id r₂ hr₂
  · exact Or.inl ⟨hc, h.stay id hnone, hst⟩
  · obtain ⟨hc, hnone, hst⟩ | ⟨r₀, hr₀, hcase₀⟩ := h.rows id r₁ hr₁
    · obtain rfl | ⟨rfl, -⟩ := hcase
      · exact Or.inl ⟨hc, hnone, hst⟩
      · cases hc
    · refine Or.inr ⟨r₀, hr₀, ?_⟩
      obtain rfl | ⟨hc, hu⟩ := hcase
      · exact hcase₀
      · obtain rfl | ⟨-, hu₀⟩ := hcase₀
        · exact Or.inr ⟨hc, hu⟩
        · exact Or.inr ⟨by rw [hc, hu₀], hu.trans hu₀⟩

/-- A booking inserts one confirmed record. -/
theorem KeptBy.insert {r : BookingRecord} (hc : c.isCancel = false) (hr : r.status = .confirmed) :
    KeptBy c b₀ (b₀.insert r) := by
  refine ⟨fun id r' hr' => ?_, fun id hid => ?_⟩
  · rcases eq_or_ne id b₀.nextId with rfl | hne
    · rw [OTable.get?_insert_self] at hr'
      cases hr'
      exact Or.inl ⟨hc, OTable.get?_eq_none (Nat.le_refl _), hr⟩
    · rw [OTable.get?_insert_ne hne] at hr'
      exact Or.inr ⟨r', hr', Or.inl rfl⟩
  · rcases eq_or_ne id b₀.nextId with rfl | hne
    · exact OTable.get?_eq_none (Nat.le_refl _)
    · rwa [OTable.get?_insert_ne hne] at hid

/-- A cancellation overwrites the record it has read. -/
theorem KeptBy.cancel {r r' : BookingRecord} (hc : c.isCancel = true)
    (hr : b₀.get? c.bookingId = some r) (hu : r.userId = c.userId) (hu' : r'.userId = r.userId) :
    KeptBy c b₀ (b₀.update c.bookingId r') := by
  refine ⟨fun id x hx => ?_, fun id hid => ?_⟩
  · rcases eq_or_ne id c.bookingId with rfl | hne
    · rw [OTable.get?_update_self hr] at hx
      cases hx
      refine Or.inr ⟨r, hr, Or.inr ⟨?_, hu'⟩⟩
      rw [hu]
      exact Call.eq_cancel hc
    · rw [OTable.get?_update_ne hne] at hx
      exact Or.inr ⟨x, hx, Or.inl rfl⟩
  · rcases eq_or_ne id c.bookingId with rfl | hne
    · rw [OTable.get?_update_self hr] at hid
      cases hid
    · rwa [OTable.get?_update_ne hne] at hid

end Kept

section Steps

variable {c : Call} {env : Env} {db db' : Db} {txn : UInt32} {pc : Pc}

/-- The bookings after a table call that does not fail. -/
theorem TableEffect.kept {ts : TableStep} (h : TableEffect c env db txn ts db' pc)
    (hk : Knows c db.bookings (.table txn ts)) : KeptBy c db.bookings db'.bookings := by
  cases h with
  | inserted hroom => exact KeptBy.insert (hk.kind false rfl) rfl
  | @cancelled booking rows booking' hg =>
    obtain ⟨hget, hu⟩ := hk.read booking rfl
    exact KeptBy.cancel (hk.kind true rfl) hget hu rfl
  | _ => exact KeptBy.refl c _

/-- Only the insertion and the last update of a cancellation touch the bookings. -/
theorem TableEffect.bookings {ts : TableStep} (h : TableEffect c env db txn ts db' pc)
    (hins : ∀ evt, ts ≠ .bookInsert evt) (hupd : ∀ b rows, ts ≠ .cancelUpdateBooking b rows) :
    db'.bookings = db.bookings := by
  cases h with
  | inserted hroom => exact absurd rfl (hins _)
  | cancelled hg => exact absurd rfl (hupd _ _)
  | _ => rfl

/-- A table call depends on storage and the clock only. -/
theorem tableStep_congr {env' : Env} (hst : env.storage = env'.storage) (hnow : env.now = env'.now)
    (ts : TableStep) : tableStep c env db txn ts = tableStep c env' db txn ts := by
  cases ts <;>
    simp only [tableStep, tableFindById, tableInsert, tableUpdate, tableScan, hst, hnow]

theorem callEnv_leaves {s : Shared} {now : Int} {f : EngineFault} {d : Db}
    (h : (callEnv c s pc now f).leaves = some d) : d = s.db ∨ d = s.dbAfter c pc now := by
  obtain ⟨table, lockAlloc, logged, flushed⟩ := f
  cases table with
  | none => simp [callEnv, Env.leaves] at h
  | unread skipped =>
    -- a scan leaves nothing behind
    have hst : (callEnv c s pc now ⟨.unread skipped, lockAlloc, logged, flushed⟩).storage = .ok ∨
        ∃ rows, (callEnv c s pc now ⟨.unread skipped, lockAlloc, logged, flushed⟩).storage =
          .scanned rows := by
      simp only [callEnv]
      split
      · rename_i heq
        cases heq
      · exact Or.inr ⟨_, rfl⟩
      · exact Or.inl rfl
    obtain hst | ⟨rows, hst⟩ := hst
    · simp [Env.leaves, hst] at h
    · simp [Env.leaves, hst] at h
  | error rc applied =>
    simp only [callEnv, Env.leaves, Option.some.injEq] at h
    subst h
    cases applied
    · exact Or.inl rfl
    · exact Or.inr rfl

/-- **Every step of a call**, whatever goes wrong, leaves the tables alone or does to them what its
table call does when nothing goes wrong. -/
theorem callEnv_db {s s' : Shared} {now : Int} {f : EngineFault} {next : Next}
    (h : pcStep c (callEnv c s pc now f) s pc = some (s', next)) :
    s'.db = s.db ∨ ∃ txn ts pc', pc = .table txn ts ∧
      tableStep c (Env.fine now) s.db txn ts = some (s'.db, pc') := by
  obtain hdb | ⟨rfl, hstart⟩ | ⟨txn, ts, pc', rfl, htable⟩ := pcStep_db h
  · exact Or.inl hdb
  · obtain hdb | hleft := bookStart_db hstart
    · exact Or.inl hdb
    · obtain hd | hd := callEnv_leaves hleft
      · exact Or.inl hd
      · -- the lookup of the event changes nothing
        left
        rw [hd, Shared.dbAfter, pcStep]
        cases hb : bookStart c (Env.fine now) s.db with
        | none => rfl
        | some r => exact (bookStart_fine rfl hb).1
  · obtain hst | hleft | hdb := tableStep_storage htable
    · right
      refine ⟨txn, ts, pc', rfl, ?_⟩
      rw [← htable]
      exact tableStep_congr (show (Env.fine now).storage = _ from hst.symm) rfl ts
    · obtain hd | hd := callEnv_leaves hleft
      · exact Or.inl hd
      · rw [Shared.dbAfter, pcStep] at hd
        cases hb : tableStep c (Env.fine now) s.db txn ts with
        | none =>
          rw [hb] at hd
          exact Or.inl hd
        | some r =>
          rw [hb] at hd
          exact Or.inr ⟨txn, ts, r.2, rfl, by rw [show s'.db = r.1 from hd]; exact hb⟩
    · exact Or.inl hdb

end Steps

/-! ## What a call knows on its way -/

section Knows

variable {c : Call} {bookings : OTable BookingRecord} {txn : UInt32}

/-- At the end of a call nothing has to be known. -/
theorem Knows.ending {pc : Pc} (hkind : pc.ofCancel = none) (hread : pc.read? = none) :
    Knows c bookings pc :=
  ⟨fun k hk => (by rw [hkind] at hk; cases hk), fun b hb => (by rw [hread] at hb; cases hb)⟩

theorem Knows.of_kind {pc : Pc} {k : Bool} (hkind : pc.ofCancel = some k) (hc : c.isCancel = k)
    (hread : pc.read? = none) : Knows c bookings pc :=
  ⟨fun k' hk => (by rw [hkind] at hk; cases hk; exact hc),
    fun b hb => (by rw [hread] at hb; cases hb)⟩

theorem knows_bookVerifyLoop (hc : c.isCancel = false) (evt : EventRecord) (i : Nat) :
    Knows c bookings (bookVerifyLoop c evt txn i) := by
  unfold bookVerifyLoop
  split <;> exact .of_kind rfl hc rfl

theorem knows_bookLockLoop (hc : c.isCancel = false) (evt : EventRecord) (i : Nat) :
    Knows c bookings (bookLockLoop c evt txn i) := by
  unfold bookLockLoop
  split
  · exact .of_kind rfl hc rfl
  · exact knows_bookVerifyLoop hc evt 0

theorem knows_bookSeatLoop (hc : c.isCancel = false) (b i : Nat) :
    Knows c bookings (bookSeatLoop c txn b i) := by
  unfold bookSeatLoop
  split
  · exact .of_kind rfl hc rfl
  · exact .ending rfl rfl

theorem knows_cancelSeatLoop {booking : BookingRecord} (hc : c.isCancel = true)
    (hread : bookings.get? c.bookingId = some booking ∧ booking.userId = c.userId)
    (rows : List BookingSeatRecord) (i : Nat) :
    Knows c bookings (cancelSeatLoop txn booking rows i) := by
  unfold cancelSeatLoop
  split
  · exact ⟨fun k hk => by cases hk; exact hc, fun b hb => by cases hb; exact hread⟩
  · exact ⟨fun k hk => by cases hk; exact hc, fun b hb => by cases hb; exact hread⟩

theorem knows_afterLock {stage : LockStage} {site : LockSite}
    (h : Knows c bookings (.lock stage txn site)) : Knows c bookings (afterLock c txn site) := by
  cases site with
  | bookSeat evt i => exact knows_bookLockLoop (h.kind false rfl) evt (i + 1)
  | cancelBooking => exact .of_kind rfl (h.kind true rfl) rfl
  | cancelSeat booking rows i =>
    exact ⟨fun k hk => by cases hk; exact h.kind true rfl,
      fun b hb => by cases hb; exact h.read booking rfl⟩

theorem knows_stage {stage : LockStage} (stage' : LockStage) {site : LockSite}
    (h : Knows c bookings (.lock stage txn site)) : Knows c bookings (.lock stage' txn site) := by
  cases site with
  | bookSeat evt i => exact .of_kind rfl (h.kind false rfl) rfl
  | cancelBooking => exact .of_kind rfl (h.kind true rfl) rfl
  | cancelSeat booking rows i =>
    exact ⟨fun k hk => by cases hk; exact h.kind true rfl,
      fun b hb => by cases hb; exact h.read booking rfl⟩

/-- A table call that keeps the bookings hands on what is known of them. -/
theorem knows_table {env : Env} {db db' : Db} {ts : TableStep} {pc' : Pc}
    (h : Knows c db.bookings (.table txn ts)) (hs : tableStep c env db txn ts = some (db', pc'))
    (hkeep : (∀ evt, ts ≠ .bookInsert evt) → (∀ b rows, ts ≠ .cancelUpdateBooking b rows) →
      db'.bookings = db.bookings) : Knows c db'.bookings pc' := by
  cases ts with
  | bookVerify evt i =>
    have hc := h.kind false rfl
    obtain ⟨r, -, he⟩ := Option.map_eq_some_iff.mp hs
    obtain ⟨rfl, rfl⟩ := Prod.mk.inj he
    split
    · exact .ending rfl rfl
    · split
      · exact .ending rfl rfl
      · split
        · exact .ending rfl rfl
        · exact knows_bookVerifyLoop hc evt (i + 1)
  | bookInsert evt =>
    have hc := h.kind false rfl
    obtain ⟨r, -, he⟩ := Option.map_eq_some_iff.mp hs
    obtain ⟨rfl, rfl⟩ := Prod.mk.inj he
    split
    · exact .ending rfl rfl
    · exact knows_bookSeatLoop hc _ 0
  | bookJunction b i | bookFindSeat b i =>
    have hc := h.kind false rfl
    obtain ⟨r, -, he⟩ := Option.map_eq_some_iff.mp hs
    obtain ⟨rfl, rfl⟩ := Prod.mk.inj he
    split
    · exact .ending rfl rfl
    · exact .of_kind rfl hc rfl
  | bookUpdateSeat b i seat =>
    have hc := h.kind false rfl
    obtain ⟨r, -, he⟩ := Option.map_eq_some_iff.mp hs
    obtain ⟨rfl, rfl⟩ := Prod.mk.inj he
    split
    · exact .ending rfl rfl
    · exact knows_bookSeatLoop hc b (i + 1)
  | cancelFind =>
    have hc := h.kind true rfl
    have hb := hkeep (fun _ => by simp) (fun _ _ => by simp)
    obtain ⟨r, hr, he⟩ := Option.map_eq_some_iff.mp hs
    obtain ⟨rfl, rfl⟩ := Prod.mk.inj he
    split
    · exact .ending rfl rfl
    · rename_i booking hbooking
      split
      · exact .ending rfl rfl
      · rename_i hu
        split
        · exact .ending rfl rfl
        · -- the record comes from the table as it is
          have hget : db.bookings.get? c.bookingId = some booking := by
            unfold tableFindById at hr
            split at hr
            · cases hr
              cases hg : db.bookings.get? c.bookingId with
              | none => rw [hg] at hbooking; cases hbooking
              | some b => rw [hg] at hbooking; cases hbooking; rfl
            · cases hr
              cases hbooking
            · cases hr
          refine ⟨fun k hk => by cases hk; exact hc, fun b hb' => ?_⟩
          cases hb'
          exact ⟨by rw [hb]; exact hget, not_not.mp hu⟩
  | cancelScan booking =>
    have hread := h.read booking rfl
    obtain ⟨rows, -, he⟩ := Option.map_eq_some_iff.mp hs
    obtain ⟨rfl, rfl⟩ := Prod.mk.inj he
    exact knows_cancelSeatLoop (h.kind true rfl) hread _ 0
  | cancelFindSeat booking rows i =>
    have hread := h.read booking rfl
    rw [← hkeep (fun _ => by simp) (fun _ _ => by simp)] at hread
    obtain ⟨r, -, he⟩ := Option.map_eq_some_iff.mp hs
    obtain ⟨rfl, rfl⟩ := Prod.mk.inj he
    split
    · exact knows_cancelSeatLoop (h.kind true rfl) hread rows (i + 1)
    · exact ⟨fun k hk => by cases hk; exact h.kind true rfl,
        fun b hb => by cases hb; exact hread⟩
  | cancelUpdateSeat booking rows i seat =>
    have hread := h.read booking rfl
    rw [← hkeep (fun _ => by simp) (fun _ _ => by simp)] at hread
    obtain ⟨r, -, he⟩ := Option.map_eq_some_iff.mp hs
    obtain ⟨rfl, rfl⟩ := Prod.mk.inj he
    split
    · exact .ending rfl rfl
    · exact knows_cancelSeatLoop (h.kind true rfl) hread rows (i + 1)
  | cancelUpdateBooking booking rows =>
    obtain ⟨r, -, he⟩ := Option.map_eq_some_iff.mp hs
    obtain ⟨rfl, rfl⟩ := Prod.mk.inj he
    split <;> exact .ending rfl rfl

end Knows

/-- What is known at the next program point. -/
theorem knows_step {c : Call} {s s' : Shared} {now : Int} {f : EngineFault} {pc pc' : Pc}
    (h : Knows c s.db.bookings pc)
    (hs : pcStep c (callEnv c s pc now f) s pc = some (s', .goto pc')) :
    Knows c s'.db.bookings pc' := by
  have hdb := callEnv_db hs
  cases pc with
  | bookStart =>
    have hc := h.kind false rfl
    obtain ⟨r, hr, he⟩ := Option.map_eq_some_iff.mp hs
    obtain ⟨-, hnext⟩ := Prod.mk.inj he
    unfold bookStart at hr
    split at hr
    · obtain ⟨r', -, rfl⟩ := Option.map_eq_some_iff.mp hr
      simp only at hnext
      split at hnext
      · cases hnext
      · split at hnext
        · cases hnext
        · cases hnext
          exact .of_kind rfl hc rfl
    · cases hr
      cases hnext
  | begin evt =>
    simp only [pcStep] at hs
    split at hs
    · cases hs
    · cases hs
      cases evt with
      | none => exact .of_kind rfl (h.kind true rfl) rfl
      | some evt => exact knows_bookLockLoop (h.kind false rfl) evt 0
  | lock stage txn site =>
    cases stage with
    | check =>
      simp only [pcStep] at hs
      split at hs <;> cases hs
      · exact .ending rfl rfl
      · exact knows_afterLock h
      · exact knows_stage .acquire h
    | acquire =>
      obtain ⟨locks, -, he⟩ := Option.map_eq_some_iff.mp hs
      split at he <;> cases he
      · exact knows_stage .register h
      · exact .ending rfl rfl
    | register =>
      simp only [pcStep] at hs
      split at hs <;> cases hs
      · exact knows_afterLock h
      · exact .ending rfl rfl
  | table txn ts =>
    obtain ⟨r, hr, he⟩ := Option.map_eq_some_iff.mp hs
    obtain ⟨rfl, hnext⟩ := Prod.mk.inj he
    cases hnext
    refine knows_table h hr (fun hins hupd => ?_)
    obtain hsame | ⟨txn', ts', pc', heq, htable⟩ := hdb
    · exact congrArg Db.bookings hsame
    · cases heq
      exact (tableStep_effect rfl htable).bookings hins hupd
  | commit txn out =>
    simp only [pcStep] at hs
    split at hs <;> cases hs <;> exact .ending rfl rfl
  | abort txn rc =>
    simp only [pcStep] at hs
    split at hs <;> cases hs
    exact .ending rfl rfl
  | orphan txn key =>
    cases hs
    exact .ending rfl rfl
  | release locks rc out =>
    cases locks with
    | nil => cases hs
    | cons key locks =>
      cases hs
      exact .ending rfl rfl

/-- The bookings after one step, whatever goes wrong in it. -/
theorem kept_step {c : Call} {s s' : Shared} {now : Int} {f : EngineFault} {pc : Pc} {next : Next}
    (h : Knows c s.db.bookings pc)
    (hs : pcStep c (callEnv c s pc now f) s pc = some (s', next)) :
    KeptBy c s.db.bookings s'.db.bookings := by
  obtain hsame | ⟨txn, ts, pc', rfl, htable⟩ := callEnv_db hs
  · rw [hsame]
    exact KeptBy.refl c _
  · exact (tableStep_effect rfl htable).kept h

/-- **The bookings after a call**, whatever goes wrong in it. -/
theorem runCall_bookings {c : Call} {now : Int} {fs : List EngineFault} {s s' : Shared} {pc : Pc}
    {rc : EtpResult} {out : Option Nat} (h : runCall c now fs s pc = some (s', rc, out))
    (hk : Knows c s.db.bookings pc) : KeptBy c s.db.bookings s'.db.bookings := by
  induction fs generalizing s pc with
  | nil => cases h
  | cons f fs ih =>
    simp only [runCall] at h
    split at h
    · cases h
    · rename_i s₁ pc₁ hstep
      exact (kept_step hk hstep).trans (ih h (knows_step hk hstep))
    · rename_i s₁ rc₁ out₁ hstep
      cases h
      exact kept_step hk hstep

theorem knows_entry (c : Call) (bookings : OTable BookingRecord) : Knows c bookings c.entry := by
  cases c with
  | book u e l => exact .of_kind rfl rfl rfl
  | cancel b u => exact .of_kind rfl rfl rfl

end Ticketing
