import Ticketing.Core.CallReturns

/-!
# A booking books all of its seats or nothing

`booking_book_seats` from a state in which no lock is held and a transaction slot is free.

* `bookedDb` — the tables while a booking is being written, and after it.
* `BookEnd`, `book_returns` — the only ways such a call ends, whatever memory does.
* `CanBook`, `BookedSeats` — what makes a call succeed, and what it has done when it did.
* `book_all_or_nothing` — the call returns, and what it returns says exactly what it did.
-/

set_option autoImplicit false

namespace Ticketing

/-! ## The tables of a booking -/

/-- The tables of a booking with `i` of its seats written. -/
def bookedDb (c : Call) (evt : EventRecord) (now : Int) (db : Db) (i : Nat) : Db where
  events := db.events
  seats := markSeats c.userId db.seats (c.seats.take i)
  bookings := db.bookings.insert (newBooking c evt now)
  bookingSeats := db.bookingSeats.insertAll ((c.seats.take i).map fun x => ⟨db.bookings.nextId, x⟩)

/-- The tables have ids left for a booking of these seats. -/
structure IdsLeft (db : Db) (ids : List Nat) : Prop where
  booking : db.bookings.nextId < 2 ^ 32
  junction : db.bookingSeats.nextId + min ids.length MAX_SEATS_PER_BOOKING ≤ 2 ^ 32

/-- How a booking of `c` ends that starts in `s`; `m` says that memory may run out. -/
inductive BookEnd (m : Prop) (c : Call) (now : Int) (s : Shared) :
    Shared → EtpResult → Option Nat → Prop where
  /-- Before a transaction was begun. -/
  | early {rc : EtpResult} : rc ≠ .ok → bookResult s.db c = rc → BookEnd m c now s s rc none
  | refused {rc : EtpResult} : rc ≠ .ok → bookResult s.db c = rc ∨ m →
      BookEnd m c now s (s.ended s.db) rc none
  | booked (evt : EventRecord) : bookResult s.db c = .ok →
      s.db.events.get? c.eventId = some evt →
      BookEnd m c now s (s.ended (bookedDb c evt now s.db c.seats.length)) .ok
        (some s.db.bookings.nextId)

/-! ## The steps of the call -/

theorem seats_perm (user event : Nat) (ids : List Nat) : (Call.book user event ids).seats.Perm ids :=
  exchangeSort_perm _ _

section Steps

variable {m q : Prop} {c : Call} {now : Int} {P : Shared → EtpResult → Option Nat → Prop}
  {s₀ s : Shared} {keys : List LockKey} {evt : EventRecord}

/-- The loop that writes junction records and seats, with `k` seats left. -/
theorem returns_bookSeatLoop (hr : s₀.Ready)
    (hroom : q ∨ s₀.db.bookingSeats.nextId + c.seats.length ≤ 2 ^ 32)
    (hseats : ∀ x ∈ c.seats, s₀.db.seats.get? x ≠ none)
    (hP : P (s₀.ended (bookedDb c evt now s₀.db c.seats.length)) .ok
      (some s₀.db.bookings.nextId)) (k : Nat) : ∀ i s, i + k = c.seats.length →
      s.db = bookedDb c evt now s₀.db i → Holds s₀ s keys →
      Returns m q c now P s (bookSeatLoop c s₀.tm.nextTxnId s₀.db.bookings.nextId i) := by
  induction k with
  | zero =>
    intro i s hi hdb hold
    obtain rfl : i = c.seats.length := by omega
    unfold bookSeatLoop
    rw [if_neg (Nat.lt_irrefl _)]
    exact hold.commit hr (by rw [hdb]; exact hP)
  | succ k ih =>
    intro i s hi hdb hold
    have hlt : i < c.seats.length := by omega
    unfold bookSeatLoop
    rw [if_pos hlt]
    -- the seat is still there, marked or not
    obtain ⟨seat, hseat⟩ : ∃ seat, s.db.seats.get? (seatAt c.seats i) = some seat := by
      rw [← Option.ne_none_iff_exists', hdb]
      simp only [bookedDb, get?_markSeats]
      split
      · simpa using hseats _ (seatAt_mem hlt)
      · exact hseats _ (seatAt_mem hlt)
    by_cases hnext : 2 ^ 32 ≤ s.db.bookingSeats.nextId
    · refine Returns.full (tableStep_junctionFull hnext) (hroom.resolve_right ?_)
      rw [hdb] at hnext
      simp only [bookedDb, OTable.nextId_insertAll, List.length_map, List.length_take] at hnext
      omega
    apply Returns.table (tableStep_junction (Nat.not_le.mp hnext))
    apply Returns.table (tableStep_findSeat (by exact hseat))
    apply Returns.table (tableStep_updateSeat (by exact hseat))
    refine ih (i + 1) _ (by omega) ?_ (hold.db _)
    rw [hdb] at hseat
    simp only [hdb, bookedDb, Db.mk.injEq, true_and]
    refine ⟨(markSeats_succ hlt hseat).symm, ?_⟩
    rw [take_succ_seatAt hlt, List.map_append, OTable.insertAll_append]
    rfl

/-- The insertion of the booking record. -/
theorem returns_bookInsert (hr : s₀.Ready) (hroom : q ∨ IdsLeft s₀.db c.seats)
    (hlen : c.seats.length ≤ MAX_SEATS_PER_BOOKING) (hok : bookResult s₀.db c = .ok)
    (hP : P (s₀.ended (bookedDb c evt now s₀.db c.seats.length)) .ok
      (some s₀.db.bookings.nextId)) (hdb : s.db = s₀.db) (hold : Holds s₀ s keys) :
    Returns m q c now P s (.table s₀.tm.nextTxnId (.bookInsert evt)) := by
  by_cases hnext : 2 ^ 32 ≤ s.db.bookings.nextId
  · refine Returns.full (tableStep_insertFull hnext) (hroom.resolve_right fun h => ?_)
    rw [hdb] at hnext
    exact absurd h.booking (Nat.not_lt.mpr hnext)
  apply Returns.table (tableStep_insert (Nat.not_le.mp hnext))
  rw [hdb]
  have hjunctions : q ∨ s₀.db.bookingSeats.nextId + c.seats.length ≤ 2 ^ 32 := by
    refine hroom.imp_right fun h => ?_
    have := h.junction
    omega
  apply returns_bookSeatLoop hr hjunctions ?_ hP c.seats.length 0 _ (by omega) (by rfl) (hold.db _)
  intro x hx
  obtain ⟨seat, hseat, -⟩ := (bookResult_eq_ok.mp hok).2 x hx
  simp [hseat]

/-- The verification loop, with `k` seats left. -/
theorem returns_bookVerifyLoop (hr : s₀.Ready) (hst : Started s₀.db c)
    (hrefused : ∀ rc, rc ≠ .ok → bookResult s₀.db c = rc → P (s₀.ended s₀.db) rc none)
    (hnext : bookResult s₀.db c = .ok →
      Returns m q c now P s (.table s₀.tm.nextTxnId (.bookInsert evt)))
    (hdb : s.db = s₀.db) (hold : Holds s₀ s keys) (k : Nat) : ∀ i, i + k = c.seats.length →
      (∀ x ∈ c.seats.take i, s₀.db.SeatAvailable c.eventId x) →
      Returns m q c now P s (bookVerifyLoop c evt s₀.tm.nextTxnId i) := by
  induction k with
  | zero =>
    intro i hi hprev
    unfold bookVerifyLoop
    rw [if_neg (by omega)]
    rw [List.take_of_length_le (by omega)] at hprev
    exact hnext (bookResult_eq_ok.mpr ⟨hst, hprev⟩)
  | succ k ih =>
    intro i hi hprev
    have hlt : i < c.seats.length := by omega
    unfold bookVerifyLoop
    rw [if_pos hlt]
    cases hcheck : s₀.db.seatCheck c.eventId (seatAt c.seats i) with
    | none =>
      obtain ⟨seat, hseat, hevent, hfree⟩ := Db.seatCheck_eq_none.mp hcheck
      have hget : s.db.seats.get? (c.seats.getD i 0) = some seat := by
        rw [hdb]
        exact hseat
      refine Returns.table ?_ (ih (i + 1) (by omega) ?_)
      · simp only [tableStep, tableFindById, Env.fine, hget]
        simp [hevent, hfree]
      · intro x hx
        rw [take_succ_seatAt hlt, List.mem_append, List.mem_singleton] at hx
        rcases hx with hx | rfl
        · exact hprev x hx
        · exact ⟨seat, hseat, hevent, hfree⟩
    | some rc =>
      have hrc : rc ≠ .ok := by
        rintro rfl
        exact seatCheck_ne_ok hcheck
      have hresult : bookResult s₀.db c = rc := by
        rw [hst.bookResult, firstRefusal_at hlt hprev hcheck]
        rfl
      refine Returns.table (tableStep_verifyAbort (by rw [hdb]; exact hcheck)) ?_
      exact hold.abort hr (by rw [hdb]; exact hrefused rc hrc hresult)

/-- The lock loop, with `k` seats left. -/
theorem returns_bookLockLoop (hr : s₀.Ready) (hv : c.validSeats = true)
    (hmem : m → P (s₀.ended s₀.db) .errGeneric none)
    (hnext : ∀ s keys, s.db = s₀.db → Holds s₀ s keys →
      Returns m q c now P s (bookVerifyLoop c evt s₀.tm.nextTxnId 0)) (k : Nat) :
    ∀ i s, i + k = c.seats.length → s.db = s₀.db →
      Holds s₀ s ((c.seats.take i).map seatKey) →
      Returns m q c now P s (bookLockLoop c evt s₀.tm.nextTxnId i) := by
  have hlen := seats_length hv
  induction k with
  | zero =>
    intro i s hi hdb hold
    unfold bookLockLoop
    rw [if_neg (by omega)]
    exact hnext s _ hdb hold
  | succ k ih =>
    intro i s hi hdb hold
    have hlt : i < c.seats.length := by omega
    unfold bookLockLoop
    rw [if_pos hlt]
    refine hold.lock hr ?_ ?_ ?_ ?_
    · -- the seats are all different
      intro hin
      obtain ⟨x, hx, hkey⟩ := List.mem_map.mp hin
      injection hkey with _ hrecord
      exact (ne_seatAt (seats_nodup hv) hlt).1 x hx hrecord
    · have hbound : MAX_SEATS_PER_BOOKING < MAX_LOCKS_PER_TXN := by decide
      rw [List.length_map, List.length_take]
      omega
    · intro s' hdb' hold'
      refine ih (i + 1) s' (by omega) (hdb'.trans hdb) ?_
      rw [take_succ_seatAt hlt, List.map_append]
      exact hold'
    · rw [hdb]
      exact hmem

end Steps

/-- **A booking returns**, in one of the ways of `BookEnd`. -/
theorem book_returns {m q : Prop} {s : Shared} {user event : Nat} {ids : List Nat} {now : Int}
    (hr : s.Ready) (hroom : q ∨ IdsLeft s.db ids) :
    Returns m q (.book user event ids) now (BookEnd m (.book user event ids) now s) s .bookStart := by
  have hfine : ∀ a, bookStart (.book user event ids)
      { Env.fine now with lockAlloc := a } s.db =
      bookStart (.book user event ids) (Env.fine now) s.db := fun a => rfl
  obtain ⟨⟨db, next⟩, hstart⟩ : ∃ r, bookStart (.book user event ids) (Env.fine now) s.db = some r := by
    unfold bookStart tableFindById
    split
    · exact ⟨_, rfl⟩
    · exact ⟨_, rfl⟩
  have hs : ∀ a, pcStep (.book user event ids) { Env.fine now with lockAlloc := a } s .bookStart =
      some ({ s with db := db }, next) := by
    intro a
    rw [pcStep, hfine, hstart]
    rfl
  obtain ⟨rfl, ⟨hv, rfl⟩ | ⟨hv, hnone, rfl⟩ | ⟨hv, evt, hevt, ⟨hact, rfl⟩ | ⟨hact, rfl⟩⟩⟩ :=
    bookStart_fine rfl hstart
  · refine Returns.ret hs (.early (by decide) ?_)
    simp [bookResult, hv]
  · refine Returns.ret hs (.early (by decide) ?_)
    simp [bookResult, hv, hnone]
  · refine Returns.ret hs (.early (by decide) ?_)
    simp [bookResult, hv, hevt, hact]
  · have hst : Started s.db (.book user event ids) := ⟨hv, evt, hevt, hact⟩
    have hroom' : q ∨ IdsLeft s.db (Call.book user event ids).seats := by
      refine hroom.imp_right fun h => ⟨h.booking, ?_⟩
      rw [(seats_perm user event ids).length_eq]
      exact h.junction
    apply Returns.step hs
    apply returns_begin hr
    intro s₁ hdb₁ hold₁
    refine returns_bookLockLoop hr hv (fun hm => .refused (by decide) (Or.inr hm)) ?_ _ 0 s₁
      (Nat.zero_add _) hdb₁ hold₁
    intro s₂ keys hdb₂ hold₂
    refine returns_bookVerifyLoop hr hst (fun rc hrc hres => .refused hrc (Or.inl hres)) ?_ hdb₂ hold₂
      _ 0 (Nat.zero_add _) (fun x hx => by simp at hx)
    intro hok
    exact returns_bookInsert hr hroom' (seats_length hv).2 hok (.booked evt hok hevt) hdb₂ hold₂

/-! ## What the call has done -/

/-- One to ten different seats, none of them 0, all free seats of an active event. -/
structure Db.CanBook (db : Db) (event : Nat) (ids : List Nat) : Prop where
  nonempty : 1 ≤ ids.length
  few : ids.length ≤ MAX_SEATS_PER_BOOKING
  nodup : ids.Nodup
  nonzero : 0 ∉ ids
  active : ∃ evt, db.events.get? event = some evt ∧ evt.status = .active
  free : ∀ x ∈ ids, ∃ seat, db.seats.get? x = some seat ∧ seat.eventId = event ∧
    seat.status = .available

/-- From `db` to `db'` the user has booked these seats of the event, as booking `b`: the seats are
marked, the booking and one junction record for each seat are inserted, nothing else changes. -/
structure BookedSeats (db db' : Db) (user event : Nat) (ids : List Nat) (b : Nat) : Prop where
  events : db'.events = db.events
  seatIds : db'.seats.nextId = db.seats.nextId
  booked : ∀ x ∈ ids, ∃ seat, db.seats.get? x = some seat ∧
    db'.seats.get? x = some { seat with status := .booked, bookedBy := user }
  others : ∀ x, x ∉ ids → db'.seats.get? x = db.seats.get? x
  booking : ∃ r, db'.bookings = db.bookings.insert r ∧ b = db.bookings.nextId ∧ r.userId = user ∧
    r.eventId = event ∧ r.seatCount = ids.length ∧ r.status = .confirmed
  junctions : ∃ l : List Nat, l.Perm ids ∧
    db'.bookingSeats = db.bookingSeats.insertAll (l.map fun x => ⟨b, x⟩)

theorem bookResult_ok_iff {db : Db} {user event : Nat} {ids : List Nat} :
    bookResult db (.book user event ids) = .ok ↔ db.CanBook event ids := by
  have hmem : ∀ x, x ∈ (Call.book user event ids).seats ↔ x ∈ ids :=
    fun x => (seats_perm user event ids).mem_iff
  rw [bookResult_eq_ok]
  constructor
  · rintro ⟨⟨hv, evt, hevt, hact⟩, hfree⟩
    simp only [Call.validSeats, Bool.and_eq_true, decide_eq_true_eq, bne_iff_ne, Bool.not_eq_true',
      List.contains_eq_mem, decide_eq_false_iff_not] at hv
    obtain ⟨⟨⟨hne, hlen⟩, hzero⟩, hnodup⟩ := hv
    exact ⟨List.length_pos_iff.mpr hne, hlen, hnodup, hzero, ⟨evt, hevt, hact⟩,
      fun x hx => hfree x ((hmem x).mpr hx)⟩
  · intro h
    refine ⟨⟨?_, h.active⟩, fun x hx => h.free x ((hmem x).mp hx)⟩
    simp only [Call.validSeats, Bool.and_eq_true, decide_eq_true_eq, bne_iff_ne, Bool.not_eq_true',
      List.contains_eq_mem, decide_eq_false_iff_not]
    exact ⟨⟨⟨List.length_pos_iff.mp h.nonempty, h.few⟩, h.nonzero⟩, h.nodup⟩

theorem bookedDb_spec {db : Db} {user event : Nat} {ids : List Nat} {evt : EventRecord} {now : Int}
    (h : db.CanBook event ids) :
    BookedSeats db (bookedDb (.book user event ids) evt now db (Call.book user event ids).seats.length)
      user event ids db.bookings.nextId := by
  have hperm := seats_perm user event ids
  refine ⟨rfl, nextId_markSeats _ _ _, fun x hx => ?_, fun x hx => ?_, ?_, ?_⟩
  · obtain ⟨seat, hseat, -⟩ := h.free x hx
    refine ⟨seat, hseat, ?_⟩
    simp only [bookedDb, List.take_length, get?_markSeats]
    rw [if_pos (hperm.mem_iff.mpr hx), hseat]
    rfl
  · simp only [bookedDb, List.take_length, get?_markSeats]
    exact if_neg fun hmem => hx (hperm.mem_iff.mp hmem)
  · exact ⟨newBooking (.book user event ids) evt now, rfl, rfl, rfl, rfl, hperm.length_eq, rfl⟩
  · refine ⟨_, hperm, ?_⟩
    simp only [bookedDb, List.take_length]

/-- What a call has left, whether it was refused or booked. -/
theorem BookEnd.outcome {m : Prop} {s s' : Shared} {user event : Nat} {ids : List Nat} {now : Int}
    {rc : EtpResult} {out : Option Nat} (hr : s.Ready)
    (h : BookEnd m (.book user event ids) now s s' rc out) :
    (∀ key, s'.locks key = ⟨0, false⟩) ∧ s'.tm.txns = s.tm.txns ∧ (rc ≠ .ok → s'.db = s.db) ∧
      (rc = .ok → s.db.CanBook event ids ∧
        ∃ b, out = some b ∧ BookedSeats s.db s'.db user event ids b) := by
  cases h with
  | early hrc _ => exact ⟨hr.locks, rfl, fun _ => rfl, fun h => absurd h hrc⟩
  | refused hrc _ => exact ⟨hr.locks, rfl, fun _ => rfl, fun h => absurd h hrc⟩
  | booked evt hok _ =>
    have hcan := bookResult_ok_iff.mp hok
    exact ⟨hr.locks, rfl, fun h => absurd rfl h, fun _ => ⟨hcan, _, rfl, bookedDb_spec hcan⟩⟩

/-- With enough memory the call returns `ETP_OK` when it can. -/
theorem BookEnd.ok_iff {s s' : Shared} {user event : Nat} {ids : List Nat} {now : Int}
    {rc : EtpResult} {out : Option Nat} (h : BookEnd False (.book user event ids) now s s' rc out) :
    rc = .ok ↔ s.db.CanBook event ids := by
  rw [← @bookResult_ok_iff _ user]
  cases h with
  | early _ hres => rw [hres]
  | refused _ hres => rw [hres.resolve_right id]
  | booked _ hok _ => simp [hok]

/-- **All or nothing.**  With no lock held, a free transaction slot and ids left, whatever the seat
array and whatever memory does, the call returns and no lock is held any more.  Unless it returns
`ETP_OK` the tables are unchanged; if it does, exactly the seats of the array are booked.  Memory not
failing, it returns `ETP_OK` exactly when the array, the event and the seats allow it. -/
theorem book_all_or_nothing {s : Shared} {user event : Nat} {ids : List Nat} {now : Int}
    (hr : s.Ready) (hroom : IdsLeft s.db ids) :
    ∃ n, ∀ faults : List EngineFault, n ≤ faults.length → (∀ f ∈ faults, f.StorageFine) →
      ∃ s' rc out, bookingBookSeats s user event ids now faults = some (s', rc, out) ∧
        (∀ key, s'.locks key = ⟨0, false⟩) ∧ s'.tm.txns = s.tm.txns ∧
        (rc ≠ .ok → s'.db = s.db) ∧
        ((∀ f ∈ faults, f.lockAlloc = true) → (rc = .ok ↔ s.db.CanBook event ids)) ∧
        (rc = .ok → s.db.CanBook event ids ∧
          ∃ b, out = some b ∧ BookedSeats s.db s'.db user event ids b) := by
  have hreturns : ∀ m, Returns m False (.book user event ids) now
      (BookEnd m (.book user event ids) now s) s .bookStart :=
    fun m => book_returns hr (Or.inr hroom)
  obtain ⟨n, hn⟩ := hreturns True
  obtain ⟨k, hk⟩ := hreturns False
  refine ⟨max n k, fun faults hlen hfine => ?_⟩
  obtain ⟨s', rc, out, hrun, hend⟩ := hn.runCall (Nat.le_trans (Nat.le_max_left _ _) hlen)
    (fun f hf => ⟨hfine f hf, fun _ => trivial⟩)
  obtain ⟨hlocks, htxns, hkeep, hbooked⟩ := hend.outcome hr
  refine ⟨s', rc, out, hrun, hlocks, htxns, hkeep, fun hmem => ?_, hbooked⟩
  obtain ⟨s'', rc', out', hrun', hend'⟩ := hk.runCall (Nat.le_trans (Nat.le_max_right _ _) hlen)
    (fun f hf => ⟨hfine f hf, fun ha => by rw [hmem f hf] at ha; cases ha⟩)
  rw [hrun] at hrun'
  cases hrun'
  exact hend'.ok_iff

/-- The managers at rest over two free seats of an active event. -/
theorem smallDb_ready : Shared.Ready ⟨smallDb, lockMgrCreate, txnMgrCreate⟩ := by
  refine ⟨⟨⟨0, by decide⟩, rfl⟩, by decide, ?_, fun _ => rfl⟩
  rintro ⟨i, t, ht, -⟩
  cases ht

theorem smallDb_canBook : smallDb.CanBook 1 [2, 1] := by
  refine ⟨by decide, by decide, by decide, by decide, ⟨_, rfl, rfl⟩, fun x hx => ?_⟩
  rcases List.mem_cons.mp hx with rfl | hx
  · exact ⟨_, rfl, rfl, rfl⟩
  · obtain rfl := List.mem_singleton.mp hx
    exact ⟨_, rfl, rfl, rfl⟩

/-- Two free seats, the larger id first, are booked. -/
theorem book_all_or_nothing_pair : ∃ faults s' b,
    bookingBookSeats ⟨smallDb, lockMgrCreate, txnMgrCreate⟩ 7 1 [2, 1] 0 faults =
      some (s', .ok, some b) ∧ BookedSeats smallDb s'.db 7 1 [2, 1] b := by
  have hroom : IdsLeft smallDb [2, 1] := ⟨by decide, by decide⟩
  obtain ⟨n, hn⟩ := @book_all_or_nothing _ 7 1 [2, 1] 0 smallDb_ready hroom
  obtain ⟨s', rc, out, hrun, -, -, -, hiff, hok⟩ := hn (List.replicate n .none)
    (Nat.le_of_eq List.length_replicate.symm) (fun f hf => by
      rw [List.eq_of_mem_replicate hf]
      exact ⟨rfl, rfl, rfl⟩)
  obtain rfl : rc = .ok := by
    refine (hiff fun f hf => ?_).mpr smallDb_canBook
    rw [List.eq_of_mem_replicate hf]
    rfl
  obtain ⟨-, b, rfl, hbooked⟩ := hok rfl
  exact ⟨_, s', b, hrun, hbooked⟩

/-- Both seats can be booked, but there is no memory for the lock of the first. -/
theorem bookable_call_without_memory :
    ¬ ∀ (s : Shared) (user event : Nat) (ids : List Nat) (now : Int) (faults : List EngineFault)
      (s' : Shared) (rc : EtpResult) (out : Option Nat), s.Ready → IdsLeft s.db ids →
      (∀ f ∈ faults, f.StorageFine) →
      bookingBookSeats s user event ids now faults = some (s', rc, out) →
      (rc = .ok ↔ s.db.CanBook event ids) := by
  intro hall
  let faults := List.replicate 3 EngineFault.none ++ EngineFault.starved :: List.replicate 3 .none
  have hfine : ∀ f ∈ faults, f.StorageFine := by
    simp [faults, EngineFault.StorageFine, EngineFault.none, EngineFault.starved]
  have hrun : (bookingBookSeats ⟨smallDb, lockMgrCreate, txnMgrCreate⟩ 7 1 [2, 1] 0 faults).any
      (fun r => r.2.1 == .errGeneric) = true := by
    decide +kernel
  obtain ⟨⟨s', rc, out⟩, hbook, hrc⟩ := (Option.any_eq_true _ _).mp hrun
  rw [beq_iff_eq] at hrc
  have hok := (hall _ 7 1 [2, 1] 0 faults s' rc out smallDb_ready ⟨by decide, by decide⟩ hfine hbook).mpr
    smallDb_canBook
  rw [show rc = .errGeneric from hrc] at hok
  cases hok

end Ticketing
