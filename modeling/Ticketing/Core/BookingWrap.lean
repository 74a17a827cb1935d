import Ticketing.Core.BookingSafety

/-!
# Transaction ids wrap around

`txn_begin` steps over `INVALID_TXN_ID` when its 32-bit counter wraps, but not over the ids of
transactions still active.  While one call waits or works, others can use up all ids; the next
transaction then shares an id with it, and `find_txn_locked` answers for whichever slot comes first.

* `World.refuse`, `refuse_reachable` — a booking of an unknown seat uses up one id and changes
  nothing else.
* `wrap_reachable` — so the counter can be brought to 1 again while a transaction is active.
* `readyFor_reachable`, `wrapRun`, `wrapCalls` — runs around a wrap.
* `wrapped_id_deadlock` — one in which this goes wrong.
-/

set_option autoImplicit false

namespace Ticketing

/-! ## Bookings, and how many -/

/-- At most `n` calls are under way. -/
def World.InProgress (w : World) (n : Nat) : Prop :=
  ∃ l : List Nat, l.length ≤ n ∧ ∀ i, w.Unfinished i → i ∈ l

/-- Nothing fails, only bookings are called, and at most `MAX_ACTIVE_TXNS` of them are under way. -/
structure BookingsOnly (w : World) (a : Action) : Prop where
  noFault : NoFault a
  books : ∀ i c, a = .start i c → ∃ userId eventId seatIds, c = .book userId eventId seatIds
  few : w.InProgress MAX_ACTIVE_TXNS

/-! ## A booking that fails -/

/-- A booking of a seat that does not exist. -/
def refusedCall : Call := .book 9 1 [3]

/-- The system after such a call. -/
def World.refuse (w : World) (j : Nat) : World where
  db := w.db
  locks := w.locks
  tm := { w.tm with nextTxnId := bumpTxnId w.tm.nextTxnId }
  procs := Function.update w.procs j (.done refusedCall .errNotFound none)

/-- The event is active, the seat unknown and unlocked, and slot `k` is the first free one. -/
structure World.Ready (w : World) (k : Fin MAX_ACTIVE_TXNS) : Prop where
  event : ∃ evt, w.db.events.get? 1 = some evt ∧ evt.status = .active
  seat : w.db.seats.get? 3 = none
  lock : w.locks (seatKey 3) = ⟨0, false⟩
  slot : w.tm.firstSlot Option.isNone = some k

/-- The system with other shared data and one call moved. -/
def World.put (w : World) (j : Nat) (s : Shared) (P : Proc) : World :=
  ⟨s, Function.update w.procs j P⟩

section Refuse

variable {w : World} {j : Nat}

theorem put_run {c : Call} {env : Env} {s s' : Shared} {pc : Pc} {next : Next}
    (h : pcStep c env s pc = some (s', next)) :
    step (w.put j s (.running c pc)) (.run j env) = some (w.put j s' (next.proc c)) := by
  simp [step, World.put, h]

theorem put_inProgress {s : Shared} {P : Proc} {n : Nat} (h : w.InProgress n) :
    (w.put j s P).InProgress (n + 1) := by
  obtain ⟨l, hl, hcover⟩ := h
  refine ⟨j :: l, by simpa using hl, ?_⟩
  rintro i ⟨c, pc, hp⟩
  by_cases hi : i = j
  · exact hi ▸ List.mem_cons_self
  · rw [World.put] at hp
    simp only [Function.update_of_ne hi] at hp
    exact List.mem_cons_of_mem _ (hcover i ⟨c, pc, hp⟩)

/-- One step of the call at `j`. -/
theorem Reachable.put {s₀ s s' : Shared} {P : Proc} {c : Call} {pc : Pc} {next : Next}
    (hfew : w.InProgress (MAX_ACTIVE_TXNS - 1))
    (h : Reachable step BookingsOnly (w.put j s₀ P) (w.put j s (.running c pc)))
    (hs : pcStep c (Env.fine 0) s pc = some (s', next)) :
    Reachable step BookingsOnly (w.put j s₀ P) (w.put j s' (next.proc c)) := by
  refine .tail (.run j (Env.fine 0)) h ⟨⟨rfl, rfl, rfl, rfl⟩, ?_, put_inProgress hfew⟩ (put_run hs)
  intro i c h
  cases h

/-- **A refused booking** uses up one transaction id and changes nothing else. -/
theorem refuse_reachable {k : Fin MAX_ACTIVE_TXNS} (hr : w.Ready k) (hj : w.procs j = .idle)
    (hne : w.tm.nextTxnId ≠ INVALID_TXN_ID) (hfresh : ¬ w.tm.Active w.tm.nextTxnId)
    (hfew : w.InProgress (MAX_ACTIVE_TXNS - 1)) :
    Reachable step BookingsOnly w (w.refuse j) := by
  obtain ⟨evt, hevt, hact⟩ := hr.event
  have hfree : w.tm.txns k = none := by simpa using TxnManager.firstSlot_some hr.slot
  -- the manager after `txn_begin`, and after the lock has been registered
  let tm₁ : TxnManager :=
    { w.tm.setSlot k (some ⟨w.tm.nextTxnId, []⟩) with nextTxnId := bumpTxnId w.tm.nextTxnId }
  let tm₂ : TxnManager := tm₁.setSlot k (some ⟨w.tm.nextTxnId, [seatKey 3]⟩)
  have huniq : ∀ i u, i ≠ k → w.tm.txns i = some u → u.id ≠ w.tm.nextTxnId :=
    fun i u _ hu hid => hfresh ⟨i, u, hu, hid⟩
  have hfind₁ : findTxnLocked tm₁ w.tm.nextTxnId = some k := by
    refine findTxnLocked_eq (TxnManager.setSlot_same _ _ _) rfl ?_
    intro i u hu hid
    by_contra hik
    exact huniq i u hik (by rw [← hu]; exact (TxnManager.setSlot_ne hik).symm) hid
  have hfind₂ : findTxnLocked tm₂ w.tm.nextTxnId = some k := by
    refine findTxnLocked_eq (TxnManager.setSlot_same _ _ _) rfl ?_
    intro i u hu hid
    by_contra hik
    rw [TxnManager.setSlot_ne hik] at hu
    exact huniq i u hik (by rw [← hu]; exact (TxnManager.setSlot_ne hik).symm) hid
  have hat₁ : tm₁.locksAt k = [] := by
    have : tm₁.txns k = some ⟨w.tm.nextTxnId, []⟩ := TxnManager.setSlot_same _ _ _
    rw [TxnManager.locksAt, this]
  have hat₂ : tm₂.locksAt k = [seatKey 3] := by
    have : tm₂.txns k = some ⟨w.tm.nextTxnId, [seatKey 3]⟩ := TxnManager.setSlot_same _ _ _
    rw [TxnManager.locksAt, this]
  let locks₁ := w.locks.setHeld (seatKey 3) true
  have hstart : Reachable step BookingsOnly w
      (w.put j w.toShared (.running refusedCall .bookStart)) := by
    refine .tail (.start j refusedCall) .refl ⟨trivial, ?_, ?_⟩ ?_
    · intro i c h
      cases h
      exact ⟨9, 1, [3], rfl⟩
    · obtain ⟨l, hl, hcover⟩ := hfew
      exact ⟨l, Nat.le_trans hl (Nat.sub_le _ _), hcover⟩
    · simp only [step, hj]
      rfl
  refine hstart.trans ?_
  have h₁ := Reachable.put (j := j) hfew .refl (show pcStep refusedCall (Env.fine 0) w.toShared .bookStart =
    some (w.toShared, .goto (.begin (some evt))) by
      have hv : refusedCall.validSeats = true := by decide
      have hev : w.db.events.get? refusedCall.eventId = some evt := hevt
      simp [pcStep, bookStart, hv, tableFindById, Env.fine, hev, hact])
  have h₂ := Reachable.put hfew h₁ (show pcStep refusedCall (Env.fine 0) w.toShared
      (.begin (some evt)) = some ({ w.toShared with tm := tm₁ },
        .goto (.lock .check w.tm.nextTxnId (.bookSeat evt 0))) by
      simp only [pcStep, txnBegin, hr.slot, hne, if_false]
      rfl)
  have h₃ := Reachable.put hfew h₂ (show pcStep refusedCall (Env.fine 0)
      { w.toShared with tm := tm₁ } (.lock .check w.tm.nextTxnId (.bookSeat evt 0)) =
        some ({ w.toShared with tm := tm₁ },
          .goto (.lock .acquire w.tm.nextTxnId (.bookSeat evt 0))) by
      simp [pcStep, txnLockCheck, hfind₁, hat₁, MAX_LOCKS_PER_TXN])
  have h₄ := Reachable.put hfew h₃ (show pcStep refusedCall (Env.fine 0)
      { w.toShared with tm := tm₁ } (.lock .acquire w.tm.nextTxnId (.bookSeat evt 0)) =
        some ({ w.toShared with tm := tm₁, locks := locks₁ },
          .goto (.lock .register w.tm.nextTxnId (.bookSeat evt 0))) by
      have hkey : lockKey refusedCall (.bookSeat evt 0) = seatKey 3 := rfl
      simp [pcStep, lockMgrLock, hkey, hr.lock, Env.fine, locks₁])
  have h₅ := Reachable.put hfew h₄ (show pcStep refusedCall (Env.fine 0)
      { w.toShared with tm := tm₁, locks := locks₁ }
      (.lock .register w.tm.nextTxnId (.bookSeat evt 0)) =
        some ({ w.toShared with tm := tm₂, locks := locks₁ },
          .goto (.table w.tm.nextTxnId (.bookVerify evt 0))) by
      simp only [pcStep, txnLockRegister, hfind₁, hat₁]
      rfl)
  have h₆ := Reachable.put hfew h₅ (show pcStep refusedCall (Env.fine 0)
      { w.toShared with tm := tm₂, locks := locks₁ } (.table w.tm.nextTxnId (.bookVerify evt 0)) =
        some ({ w.toShared with tm := tm₂, locks := locks₁ },
          .goto (.abort w.tm.nextTxnId .errNotFound)) by
      have hseat : w.db.seats.get? (refusedCall.seats.getD 0 0) = none := hr.seat
      simp only [pcStep, tableStep, tableFindById, Env.fine, hseat]
      rfl)
  have h₇ := Reachable.put hfew h₆ (show pcStep refusedCall (Env.fine 0)
      { w.toShared with tm := tm₂, locks := locks₁ } (.abort w.tm.nextTxnId .errNotFound) =
        some ({ w.toShared with tm := tm₂.setSlot k none, locks := locks₁ },
          .goto (.release [seatKey 3] .errNotFound none)) by
      simp [pcStep, txnAbortSection, hfind₂, hat₂])
  have h₈ := Reachable.put hfew h₇ (show pcStep refusedCall (Env.fine 0)
      { w.toShared with tm := tm₂.setSlot k none, locks := locks₁ }
      (.release [seatKey 3] .errNotFound none) =
        some ({ w.toShared with tm := tm₂.setSlot k none,
                                locks := (lockMgrUnlock locks₁ (seatKey 3)).2 },
          .goto (.release [] .errNotFound none)) by rfl)
  have h₉ := Reachable.put hfew h₈ (show pcStep refusedCall (Env.fine 0)
      { w.toShared with tm := tm₂.setSlot k none, locks := (lockMgrUnlock locks₁ (seatKey 3)).2 }
      (.release [] .errNotFound none) = some (_, .ret .errNotFound none) by rfl)
  have htm : tm₂.setSlot k none =
      { w.tm with nextTxnId := bumpTxnId w.tm.nextTxnId } := by
    have : Function.update w.tm.txns k none = w.tm.txns := by
      rw [← hfree]
      exact Function.update_eq_self _ _
    simp [tm₂, tm₁, TxnManager.setSlot, this]
  have hlocks : (lockMgrUnlock locks₁ (seatKey 3)).2 = w.locks := by
    have : Function.update w.locks (seatKey 3) ⟨0, false⟩ = w.locks := by
      rw [← hr.lock]
      exact Function.update_eq_self _ _
    simp [lockMgrUnlock, locks₁, LockManager.setHeld, hr.lock, this]
  rw [htm, hlocks] at h₉
  exact h₉

end Refuse

/-! ## Using up all ids -/

/-- The counter runs through all ids but `INVALID_TXN_ID`. -/
theorem bumpTxnId_iterate {n : UInt32} (hn : 0 < n.toNat) (m : Nat) :
    (bumpTxnId^[m] n).toNat = (n.toNat - 1 + m) % (2 ^ 32 - 1) + 1 := by
  have hlt := n.toNat_lt
  induction m with
  | zero =>
    show n.toNat = _
    omega
  | succ m ih =>
    rw [Function.iterate_succ_apply', bumpTxnId_toNat, ih]
    omega

/-- The system after `n` refused bookings, numbered from `base`, with the next id given. -/
def World.refuseMany (w : World) (base n : Nat) (id : UInt32) : World where
  db := w.db
  locks := w.locks
  tm := { w.tm with nextTxnId := id }
  procs := fun j =>
    if base ≤ j ∧ j < base + n then .done refusedCall .errNotFound none else w.procs j

section Wrap

variable {w : World} {k : Fin MAX_ACTIVE_TXNS} {base : Nat}

theorem refuseMany_succ (n : Nat) (id : UInt32) :
    (w.refuseMany base n id).refuse (base + n) = w.refuseMany base (n + 1) (bumpTxnId id) := by
  have hprocs : Function.update (w.refuseMany base n id).procs (base + n)
      (.done refusedCall .errNotFound none) =
        (w.refuseMany base (n + 1) (bumpTxnId id)).procs := by
    funext j
    by_cases hj : j = base + n
    · subst hj
      simp [World.refuseMany]
    · rw [Function.update_of_ne hj]
      simp only [World.refuseMany]
      refine if_congr ?_ rfl rfl
      omega
  unfold World.refuse
  rw [hprocs]
  rfl

theorem refuseMany_inProgress {n m : Nat} {id : UInt32} (h : w.InProgress m) :
    (w.refuseMany base n id).InProgress m := by
  obtain ⟨l, hl, hcover⟩ := h
  refine ⟨l, hl, ?_⟩
  rintro i ⟨c, pc, hp⟩
  simp only [World.refuseMany] at hp
  split at hp
  · cases hp
  · exact hcover i ⟨c, pc, hp⟩

theorem refuseMany_reachable (hr : w.Ready k) (hidle : ∀ j, base ≤ j → w.procs j = .idle)
    (hfew : w.InProgress (MAX_ACTIVE_TXNS - 1)) (n : Nat)
    (hfresh : ∀ m < n, bumpTxnId^[m] w.tm.nextTxnId ≠ INVALID_TXN_ID ∧
      ¬ w.tm.Active (bumpTxnId^[m] w.tm.nextTxnId)) :
    Reachable step BookingsOnly w (w.refuseMany base n (bumpTxnId^[n] w.tm.nextTxnId)) := by
  induction n with
  | zero =>
    have hw : w.refuseMany base 0 w.tm.nextTxnId = w := by
      have : (fun j => if base ≤ j ∧ j < base + 0 then
          Proc.done refusedCall .errNotFound none else w.procs j) = w.procs := by
        funext j
        rw [if_neg (by omega)]
      unfold World.refuseMany
      rw [this]
    rw [Function.iterate_zero_apply, hw]
    exact .refl
  | succ n ih =>
    have h := ih (fun m hm => hfresh m (Nat.lt_succ_of_lt hm))
    obtain ⟨hne, hact⟩ := hfresh n (Nat.lt_succ_self n)
    rw [Function.iterate_succ_apply', ← refuseMany_succ]
    refine h.trans (refuse_reachable (k := k) ⟨hr.event, hr.seat, hr.lock, hr.slot⟩ ?_ hne hact
      (refuseMany_inProgress hfew))
    have hprocs : (w.refuseMany base n (bumpTxnId^[n] w.tm.nextTxnId)).procs (base + n) =
        w.procs (base + n) := by
      simp [World.refuseMany]
    rw [hprocs]
    exact hidle _ (Nat.le_add_right _ _)

/-- **Wrap-around.**  While the only active id is the one handed out last, all other ids can be used
up, and it is handed out again. -/
theorem wrap_reachable (hr : w.Ready k) (hidle : ∀ j, base ≤ j → w.procs j = .idle)
    (hfew : w.InProgress (MAX_ACTIVE_TXNS - 1)) {x : UInt32} (hx : 0 < x.toNat)
    (hnext : w.tm.nextTxnId.toNat = x.toNat + 1) (hact : ∀ id, w.tm.Active id → id = x) :
    Reachable step BookingsOnly w (w.refuseMany base (2 ^ 32 - 2) x) := by
  have hpos : 0 < w.tm.nextTxnId.toNat := by omega
  have hlt := w.tm.nextTxnId.toNat_lt
  have hlast : bumpTxnId^[2 ^ 32 - 2] w.tm.nextTxnId = x := by
    apply UInt32.toNat_inj.mp
    rw [bumpTxnId_iterate hpos, hnext]
    omega
  rw [← hlast]
  refine refuseMany_reachable hr hidle hfew _ ?_
  intro m hm
  have hval := bumpTxnId_iterate hpos m
  constructor
  · intro h
    rw [h] at hval
    have : INVALID_TXN_ID.toNat = 0 := rfl
    omega
  · intro h
    rw [hact _ h, hnext] at hval
    omega

end Wrap

/-! ## Runs around a wrap -/

/-- Only the first `n` calls are under way. -/
def World.Within (w : World) (n : Nat) : Prop := ∀ i, w.Unfinished i → i < n

/-- A check for `BookingsOnly` in runs of the first `n` calls. -/
def bookingCheck (n : Nat) (_ : World) (a : Action) : Bool :=
  a.isFine && decide (a.proc < n) &&
    match a with
    | .start _ (.cancel _ _) => false
    | _ => true

theorem Within.inProgress {w : World} {n : Nat} (h : w.Within n) : w.InProgress n :=
  ⟨List.range n, by simp, fun i hi => List.mem_range.mpr (h i hi)⟩

theorem Within.step {n : Nat} {w w' : World} {a : Action} (h : w.Within n)
    (hcheck : bookingCheck n w a = true) (hs : Ticketing.step w a = some w') : w'.Within n := by
  simp only [bookingCheck, Bool.and_eq_true, decide_eq_true_eq] at hcheck
  rintro i ⟨c, pc, hp⟩
  by_cases hi : a.proc = i
  · exact hi ▸ hcheck.1.2
  · rw [step_procs hs hi] at hp
    exact h i ⟨c, pc, hp⟩

theorem Within.bookingsOnly {n : Nat} (hn : n ≤ MAX_ACTIVE_TXNS) {w : World} {a : Action}
    (h : w.Within n) (hcheck : bookingCheck n w a = true) : BookingsOnly w a := by
  simp only [bookingCheck, Bool.and_eq_true] at hcheck
  refine ⟨noFault_of_isFine hcheck.1.1, ?_, ?_⟩
  · rintro i c rfl
    cases c with
    | book userId eventId seatIds => exact ⟨userId, eventId, seatIds, rfl⟩
    | cancel bookingId userId => cases hcheck.2
  · obtain ⟨l, hl, hcover⟩ := Within.inProgress h
    exact ⟨l, Nat.le_trans hl hn, hcover⟩

theorem run_within {n : Nat} (hn : n ≤ MAX_ACTIVE_TXNS) {as : List Action} {w w' : World}
    (hw : w.Within n) (h : runSteps step (bookingCheck n) w as = some w') :
    Reachable step BookingsOnly w w' ∧ w'.Within n ∧ ∀ j, n ≤ j → w'.procs j = w.procs j := by
  refine Reachable.of_runSteps_inv (fun v => v.Within n ∧ ∀ j, n ≤ j → v.procs j = w.procs j)
    ?_ ?_ ⟨hw, fun _ _ => rfl⟩ h
  · rintro v a v' ⟨hI, hsame⟩ hcheck hs
    refine ⟨Within.step hI hcheck hs, ?_⟩
    simp only [bookingCheck, Bool.and_eq_true, decide_eq_true_eq] at hcheck
    intro j hj
    rw [step_procs hs (by omega), hsame j hj]
  · rintro v a ⟨hI, -⟩ hcheck
    exact Within.bookingsOnly hn hI hcheck

/-- The conditions of `wrap_reachable`, to be evaluated. -/
def World.readyFor (w : World) (k : Fin MAX_ACTIVE_TXNS) (x : UInt32) : Bool :=
  (w.db.events.get? 1).any (fun evt => evt.status == .active) &&
    ((w.db.seats.get? 3).isNone && (decide (w.locks (seatKey 3) = ⟨0, false⟩) &&
      (decide (w.tm.firstSlot Option.isNone = some k) &&
        (decide (w.tm.nextTxnId.toNat = x.toNat + 1) &&
          (List.finRange MAX_ACTIVE_TXNS).all (fun i => (w.tm.txns i).all (fun t => t.id == x))))))

/-- A run of the first `n` calls during which all ids but `x` are used up. -/
def wrapRun (n : Nat) (as : List Action) (k : Fin MAX_ACTIVE_TXNS) (x : UInt32)
    (bs : List Action) : Option World :=
  (runSteps step (bookingCheck n) (World.init smallDb) as).bind fun w =>
    if w.readyFor k x then runSteps step (bookingCheck n) (w.refuseMany n (2 ^ 32 - 2) x) bs
    else none

/-- **A wrap between two runs.** -/
theorem readyFor_reachable {n : Nat} (hn : n < MAX_ACTIVE_TXNS) {k : Fin MAX_ACTIVE_TXNS}
    {x : UInt32} (hx : 0 < x.toNat) {w : World} (hwithin : w.Within n)
    (hidle : ∀ j, n ≤ j → w.procs j = .idle) (hready : w.readyFor k x = true) :
    Reachable step BookingsOnly w (w.refuseMany n (2 ^ 32 - 2) x) ∧
      (w.refuseMany n (2 ^ 32 - 2) x).Within n := by
  simp only [World.readyFor, Bool.and_eq_true, decide_eq_true_eq, Option.isNone_iff_eq_none,
    List.all_eq_true] at hready
  obtain ⟨hevt, hseat, hlock, hslot, hnext, hids⟩ := hready
  obtain ⟨evt, hevt, hact⟩ := (Option.any_eq_true _ _).mp hevt
  constructor
  · apply wrap_reachable (k := k) ⟨⟨evt, hevt, by simpa using hact⟩, hseat, hlock, hslot⟩ hidle ?_
      hx hnext
    · rintro id ⟨i, t, ht, rfl⟩
      have hall := hids i (List.mem_finRange i)
      rw [ht] at hall
      simpa using hall
    · obtain ⟨l, hl, hcover⟩ := Within.inProgress hwithin
      exact ⟨l, by omega, hcover⟩
  · rintro i ⟨c, pc, hp⟩
    simp only [World.refuseMany] at hp
    split at hp
    · cases hp
    · exact hwithin i ⟨c, pc, hp⟩

theorem within_init (db : Db) (n : Nat) : (World.init db).Within n := by
  rintro i ⟨c, pc, hp⟩
  cases hp

theorem wrapRun_reachable {n : Nat} (hn : n < MAX_ACTIVE_TXNS) {as bs : List Action}
    {k : Fin MAX_ACTIVE_TXNS} {x : UInt32} (hx : 0 < x.toNat) {w : World}
    (h : wrapRun n as k x bs = some w) :
    Reachable step BookingsOnly (World.init smallDb) w ∧ w.Within n := by
  obtain ⟨w₀, hw₀, h⟩ := Option.bind_eq_some_iff.mp h
  split at h
  · rename_i hready
    obtain ⟨hpre, hwithin, hidle⟩ := run_within (Nat.le_of_lt hn) (within_init smallDb n) hw₀
    obtain ⟨hwrap, hwithin'⟩ := readyFor_reachable hn hx hwithin hidle hready
    obtain ⟨hpost, hend, -⟩ := run_within (Nat.le_of_lt hn) hwithin' h
    exact ⟨(hpre.trans hwrap).trans hpost, hend⟩
  · cases h

/-- A check for runs of the first `n` calls, bookings and cancellations, in which nothing fails. -/
def callCheck (n : Nat) (_ : World) (a : Action) : Bool := a.isFine && decide (a.proc < n)

/-- The same run with calls of either kind before and after the wrap. -/
def wrapCalls (n : Nat) (as : List Action) (k : Fin MAX_ACTIVE_TXNS) (x : UInt32)
    (bs : List Action) : Option World :=
  (runSteps step (callCheck n) (World.init smallDb) as).bind fun w =>
    if w.readyFor k x then runSteps step (callCheck n) (w.refuseMany n (2 ^ 32 - 2) x) bs else none

theorem callCheck_within {n : Nat} {as : List Action} {w w' : World} (hw : w.Within n)
    (h : runSteps step (callCheck n) w as = some w') :
    Reachable step (fun _ a => NoFault a) w w' ∧ w'.Within n ∧ ∀ j, n ≤ j → w'.procs j = w.procs j := by
  refine Reachable.of_runSteps_inv (fun v => v.Within n ∧ ∀ j, n ≤ j → v.procs j = w.procs j)
    ?_ ?_ ⟨hw, fun _ _ => rfl⟩ h
  · rintro v a v' ⟨hI, hsame⟩ hcheck hs
    simp only [callCheck, Bool.and_eq_true, decide_eq_true_eq] at hcheck
    constructor
    · rintro i ⟨c, pc, hp⟩
      by_cases hi : a.proc = i
      · exact hi ▸ hcheck.2
      · rw [step_procs hs hi] at hp
        exact hI i ⟨c, pc, hp⟩
    · intro j hj
      rw [step_procs hs (by omega), hsame j hj]
  · rintro v a - hcheck
    simp only [callCheck, Bool.and_eq_true] at hcheck
    exact noFault_of_isFine hcheck.1

theorem wrapCalls_reachable {n : Nat} (hn : n < MAX_ACTIVE_TXNS) {as bs : List Action}
    {k : Fin MAX_ACTIVE_TXNS} {x : UInt32} (hx : 0 < x.toNat) {w : World}
    (h : wrapCalls n as k x bs = some w) :
    Reachable step (fun _ a => NoFault a) (World.init smallDb) w := by
  obtain ⟨w₀, hw₀, h⟩ := Option.bind_eq_some_iff.mp h
  split at h
  · rename_i hready
    obtain ⟨hpre, hwithin, hidle⟩ := callCheck_within (within_init smallDb n) hw₀
    obtain ⟨hwrap, hwithin'⟩ := readyFor_reachable hn hx hwithin hidle hready
    obtain ⟨hpost, -⟩ := callCheck_within hwithin' h
    exact (hpre.trans (hwrap.mono fun _ _ h => h.noFault)).trans hpost
  · cases h

/-- Call 1 has locked seat 1 under id 2 when call 2 begins under id 2 in an earlier slot and waits
for the seat.  The commit of call 1 ends the transaction of call 2 instead of its own; the lock is
never released. -/
theorem wrapped_id_deadlock :
    ¬ ∀ db w, Reachable step (fun _ a => NoFault a) (World.init db) w →
      ((∃ i, w.Unfinished i) → ∃ i, w.Unfinished i ∧ ¬ w.Blocked i) ∧
        ∀ i, ¬ Relation.TransGen w.WaitsFor i i := by
  intro hall
  have hrun : (wrapRun 3
      (.start 0 refusedCall :: runs 0 2 ++ .start 1 (.book 7 1 [1]) :: runs 1 5 ++ runs 0 7)
      ⟨0, by decide⟩ 2
      (.start 2 (.book 8 1 [1]) :: runs 2 3 ++ runs 1 7)).any (fun w =>
        w.allDone 2 && w.isBlocked 2) = true := by
    decide +kernel
  obtain ⟨w, hw, hcheck⟩ := (Option.any_eq_true _ _).mp hrun
  rw [Bool.and_eq_true] at hcheck
  obtain ⟨hdone, hblocked⟩ := hcheck
  obtain ⟨hreach, hwithin⟩ := wrapRun_reachable (by decide) (by decide) hw
  have hb2 := blocked_of_isBlocked hblocked
  obtain ⟨c, txn, site, hp, -⟩ := id hb2
  obtain ⟨i, hun, hnot⟩ :=
    (hall smallDb w (hreach.mono (fun _ _ h => h.noFault))).1 ⟨2, c, _, hp⟩
  have hi := hwithin i hun
  by_cases hi2 : i = 2
  · exact hnot (hi2 ▸ hb2)
  · have hd := List.all_eq_true.mp hdone i (List.mem_range.mpr (by omega))
    obtain ⟨d, pc, hpi⟩ := hun
    simp only [World.isDone, hpi] at hd
    cases hd

end Ticketing
