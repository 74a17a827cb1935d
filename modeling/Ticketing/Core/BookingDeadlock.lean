import Ticketing.Core.BookingLocks
import Mathlib.Data.Finset.Max
import Mathlib.Logic.Relation

/-!
# Booking never deadlocks

Both engines sort their seats before locking, and a cancellation locks its booking before any seat.
So every lock a waiting call owns ranks strictly below the one it waits for.

* `LockOrder` — the order, one clause per program point; `lockOrder_step` — kept by every step.
* `waits_ascending` — along the wait-for relation the awaited records ascend.
* `booking_deadlock_free` — some unfinished call can always go on, and no call waits for itself,
  whatever fails, as long as transactions begin under fresh ids.
-/

set_option autoImplicit false

namespace Ticketing

/-! ## The lock order -/

/-- The lock of a seat. -/
def seatKey (seat : Nat) : LockKey := ⟨.seats, seat⟩

/-- The lock of a booking. -/
def bookingKey (booking : Nat) : LockKey := ⟨.bookings, booking⟩

/-- Bookings rank below all seats, seats by their ids. -/
def LockKey.rank (key : LockKey) : Nat :=
  match key.table with
  | .seats => key.record + 1
  | _ => 0

/-- The locks that may have been taken before a `txn_lock` call. -/
def locksBefore (c : Call) : LockSite → List LockKey
  | .bookSeat _ i => (c.seats.take i).map seatKey
  | .cancelBooking => []
  | .cancelSeat _ rows i =>
    bookingKey c.bookingId :: ((rows.map BookingSeatRecord.seatId).take i).map seatKey

/-- The call is inside its loop, over an ascending list. -/
def LockSite.InLoop (c : Call) : LockSite → Prop
  | .bookSeat _ i => i < c.seats.length
  | .cancelBooking => True
  | .cancelSeat _ rows i =>
    i < rows.length ∧ (rows.map BookingSeatRecord.seatId).Pairwise (· ≤ ·)

/-- What a call may own where it stands, and that it only waits for a lock it does not own. -/
def LockOrder (c : Call) (own : List LockKey) : Pc → Prop
  | .bookStart => own = []
  | .begin _ => own = []
  | .lock .check _ site => own ⊆ locksBefore c site ∧ site.InLoop c
  | .lock .acquire _ site =>
    own ⊆ locksBefore c site ∧ site.InLoop c ∧ lockKey c site ∉ own
  | .lock .register _ site => own ⊆ lockKey c site :: locksBefore c site ∧ site.InLoop c
  | .table _ .cancelFind => own ⊆ [bookingKey c.bookingId]
  | .table _ (.cancelScan _) => own ⊆ [bookingKey c.bookingId]
  | .table _ (.cancelFindSeat booking rows i) =>
    own ⊆ lockKey c (.cancelSeat booking rows i) :: locksBefore c (.cancelSeat booking rows i) ∧
      (LockSite.cancelSeat booking rows i).InLoop c
  | .table _ (.cancelUpdateSeat booking rows i _) =>
    own ⊆ lockKey c (.cancelSeat booking rows i) :: locksBefore c (.cancelSeat booking rows i) ∧
      (LockSite.cancelSeat booking rows i).InLoop c
  | _ => True

theorem seats_sorted (c : Call) : c.seats.Pairwise (· ≤ ·) := exchangeSort_sorted _ _

/-- Taking one more element of a list of records. -/
theorem locksUpTo {l : List Nat} {i : Nat} (hi : i < l.length) :
    (l.take (i + 1)).map seatKey = (l.take i).map seatKey ++ [⟨.seats, l.getD i 0⟩] := by
  rw [List.take_add_one, List.map_append, List.getElem?_eq_getElem hi,
    List.getD_eq_getElem?_getD, List.getElem?_eq_getElem hi]
  rfl

theorem lockOrder_bookVerifyLoop (c : Call) (evt : EventRecord) (txn : UInt32) (i : Nat)
    (own : List LockKey) : LockOrder c own (bookVerifyLoop c evt txn i) := by
  unfold bookVerifyLoop; split <;> trivial

theorem lockOrder_bookSeatLoop (c : Call) (txn : UInt32) (b i : Nat) (own : List LockKey) :
    LockOrder c own (bookSeatLoop c txn b i) := by
  unfold bookSeatLoop; split <;> trivial

theorem lockOrder_bookLockLoop {c : Call} {evt : EventRecord} {txn : UInt32} {i : Nat}
    {own : List LockKey} (h : own ⊆ (c.seats.take i).map seatKey) :
    LockOrder c own (bookLockLoop c evt txn i) := by
  unfold bookLockLoop
  split
  · rename_i hi
    exact ⟨h, hi⟩
  · exact lockOrder_bookVerifyLoop c evt txn 0 own

theorem lockOrder_cancelSeatLoop {c : Call} {booking : BookingRecord}
    {rows : List BookingSeatRecord} {txn : UInt32} {i : Nat} {own : List LockKey}
    (h : own ⊆ bookingKey c.bookingId :: ((rows.map BookingSeatRecord.seatId).take i).map seatKey)
    (hs : (rows.map BookingSeatRecord.seatId).Pairwise (· ≤ ·)) :
    LockOrder c own (cancelSeatLoop txn booking rows i) := by
  unfold cancelSeatLoop
  split
  · rename_i hi
    exact ⟨h, hi, hs⟩
  · trivial

/-- Moving on to the next seat of a cancellation. -/
theorem cancel_next {c : Call} {booking : BookingRecord} {rows : List BookingSeatRecord} {i : Nat}
    {own : List LockKey}
    (h : own ⊆ lockKey c (.cancelSeat booking rows i) :: locksBefore c (.cancelSeat booking rows i))
    (hi : i < rows.length) :
    own ⊆ bookingKey c.bookingId ::
      ((rows.map BookingSeatRecord.seatId).take (i + 1)).map seatKey := by
  intro key hk
  have hi' : i < (rows.map BookingSeatRecord.seatId).length := by simpa using hi
  rw [locksUpTo hi']
  have := h hk
  simp only [lockKey, locksBefore, List.mem_cons, List.mem_append, List.not_mem_nil,
    or_false] at this ⊢
  tauto

theorem lockOrder_afterLock {c : Call} {own : List LockKey} {txn : UInt32} {site : LockSite}
    (h : own ⊆ lockKey c site :: locksBefore c site) (hl : site.InLoop c) :
    LockOrder c own (afterLock c txn site) := by
  cases site with
  | bookSeat evt i =>
    refine lockOrder_bookLockLoop ?_
    intro key hk
    rw [locksUpTo hl]
    have := h hk
    simp only [lockKey, locksBefore, List.mem_cons, List.mem_append, List.not_mem_nil,
      or_false] at this ⊢
    tauto
  | cancelBooking => exact h
  | cancelSeat booking rows i => exact ⟨h, hl⟩

/-- The rows of a scan are locked in ascending order. -/
theorem exchangeSort_seatIds (rows : List BookingSeatRecord) :
    ((exchangeSort BookingSeatRecord.seatId rows).map BookingSeatRecord.seatId).Pairwise
      (· ≤ ·) := by
  rw [List.pairwise_map]
  exact exchangeSort_sorted _ _

theorem lockOrder_tableStep {c : Call} {env : Env} {db db' : Db} {own : List LockKey}
    {txn : UInt32} {ts : TableStep} {pc : Pc} (ho : LockOrder c own (.table txn ts))
    (h : tableStep c env db txn ts = some (db', pc)) : LockOrder c own pc := by
  cases ts with
  | bookVerify evt i =>
    obtain ⟨r, -, hr⟩ := Option.map_eq_some_iff.mp h
    obtain ⟨-, rfl⟩ := Prod.mk.inj hr
    split
    · trivial
    · split
      · trivial
      · split
        · trivial
        · exact lockOrder_bookVerifyLoop c evt txn (i + 1) own
  | bookInsert evt =>
    obtain ⟨r, -, hr⟩ := Option.map_eq_some_iff.mp h
    obtain ⟨-, rfl⟩ := Prod.mk.inj hr
    split
    · trivial
    · exact lockOrder_bookSeatLoop c txn _ 0 own
  | bookJunction b i =>
    obtain ⟨r, -, hr⟩ := Option.map_eq_some_iff.mp h
    obtain ⟨-, rfl⟩ := Prod.mk.inj hr
    split <;> trivial
  | bookFindSeat b i =>
    obtain ⟨r, -, hr⟩ := Option.map_eq_some_iff.mp h
    obtain ⟨-, rfl⟩ := Prod.mk.inj hr
    split <;> trivial
  | bookUpdateSeat b i seat =>
    obtain ⟨r, -, hr⟩ := Option.map_eq_some_iff.mp h
    obtain ⟨-, rfl⟩ := Prod.mk.inj hr
    split
    · trivial
    · exact lockOrder_bookSeatLoop c txn b (i + 1) own
  | cancelFind =>
    obtain ⟨r, -, hr⟩ := Option.map_eq_some_iff.mp h
    obtain ⟨-, rfl⟩ := Prod.mk.inj hr
    split
    · trivial
    · split
      · trivial
      · split
        · trivial
        · exact ho
  | cancelScan booking =>
    obtain ⟨rows, -, hr⟩ := Option.map_eq_some_iff.mp h
    obtain ⟨-, rfl⟩ := Prod.mk.inj hr
    have hsub : own ⊆ [bookingKey c.bookingId] := ho
    exact lockOrder_cancelSeatLoop (by simpa using hsub) (exchangeSort_seatIds rows)
  | cancelFindSeat booking rows i =>
    obtain ⟨r, -, hr⟩ := Option.map_eq_some_iff.mp h
    obtain ⟨-, rfl⟩ := Prod.mk.inj hr
    split
    · exact lockOrder_cancelSeatLoop (cancel_next ho.1 ho.2.1) ho.2.2
    · exact ho
  | cancelUpdateSeat booking rows i seat =>
    obtain ⟨r, -, hr⟩ := Option.map_eq_some_iff.mp h
    obtain ⟨-, rfl⟩ := Prod.mk.inj hr
    split
    · trivial
    · exact lockOrder_cancelSeatLoop (cancel_next ho.1 ho.2.1) ho.2.2
  | cancelUpdateBooking booking rows =>
    obtain ⟨r, -, hr⟩ := Option.map_eq_some_iff.mp h
    obtain ⟨-, rfl⟩ := Prod.mk.inj hr
    split <;> trivial

/-- **One step of a call** keeps its lock order. -/
theorem lockOrder_step {c : Call} {env : Env} {free : LockKey → Prop} {full : Prop} {db db' : Db}
    {own own' : List LockKey} {pc pc' : Pc} (ho : LockOrder c own pc)
    (h : IdealStep c env free full db own pc db' own' (.goto pc')) : LockOrder c own' pc' := by
  generalize hn : Next.goto pc' = next at h
  cases h with
  | start hs =>
    subst hn
    unfold bookStart at hs
    split at hs
    · obtain ⟨q, -, hq⟩ := Option.map_eq_some_iff.mp hs
      obtain ⟨-, hq⟩ := Prod.mk.inj hq
      split at hq
      · cases hq
      · split at hq
        · cases hq
        · injection hq with hq
          subst hq
          exact ho
    · cases hs
  | beginFull _ => cases hn
  | @begin evt txn =>
    injection hn with hn
    subst hn
    have hnil : own = [] := ho
    subst hnil
    cases evt with
    | none => exact ⟨by simp, trivial⟩
    | some evt => exact lockOrder_bookLockLoop (by simp)
  | held hk =>
    injection hn with hn
    subst hn
    exact lockOrder_afterLock (fun key hk => List.mem_cons_of_mem _ (ho.1 hk)) ho.2
  | refused _ _ => injection hn with hn; subst hn; trivial
  | check hk => injection hn with hn; subst hn; exact ⟨ho.1, ho.2, hk⟩
  | noMemory _ => injection hn with hn; subst hn; trivial
  | acquire _ =>
    injection hn with hn
    subst hn
    refine ⟨?_, ho.2.1⟩
    intro key hk
    rcases List.mem_append.mp hk with hk | hk
    · exact List.mem_cons_of_mem _ (ho.1 hk)
    · rw [List.mem_singleton] at hk
      rw [hk]
      exact List.mem_cons_self
  | register => injection hn with hn; subst hn; exact lockOrder_afterLock ho.1 ho.2
  | table ht => injection hn with hn; subst hn; exact lockOrder_tableStep ho ht
  | commitFail _ => injection hn with hn; subst hn; trivial
  | commit => injection hn with hn; subst hn; trivial
  | abort => injection hn with hn; subst hn; trivial
  | unlock => injection hn with hn; subst hn; trivial
  | ret => cases hn

/-- A call that waits owns only locks of a lower rank. -/
theorem rank_lt_of_waiting {c : Call} {own : List LockKey} {txn : UInt32} {site : LockSite}
    (ho : LockOrder c own (.lock .acquire txn site)) {key : LockKey} (hk : key ∈ own) :
    key.rank < (lockKey c site).rank := by
  obtain ⟨hsub, hl, hnot⟩ := ho
  have hmem := hsub hk
  -- an earlier element of an ascending list, other than the awaited one
  have hlist : ∀ (l : List Nat) (i : Nat), l.Pairwise (· ≤ ·) → i < l.length →
      key ∈ (l.take i).map seatKey → key ≠ ⟨.seats, l.getD i 0⟩ →
      key.rank < (⟨.seats, l.getD i 0⟩ : LockKey).rank := by
    intro l i hs hi hm hne
    obtain ⟨x, hx, rfl⟩ := List.mem_map.mp hm
    obtain ⟨j, hj, rfl⟩ := List.mem_iff_getElem.mp hx
    have hji : j < i := by simp at hj; omega
    have hget : l.getD i 0 = l[i] := by
      rw [List.getD_eq_getElem?_getD, List.getElem?_eq_getElem hi]; rfl
    rw [hget] at hne ⊢
    have hle : l[j] ≤ l[i] := List.pairwise_iff_getElem.mp hs j i (by omega) hi hji
    rw [List.getElem_take] at hne ⊢
    have hne' : l[j] ≠ l[i] := fun h => hne (by rw [seatKey, h])
    show l[j] + 1 < l[i] + 1
    omega
  have hne : key ≠ lockKey c site := fun h => hnot (h ▸ hk)
  cases site with
  | bookSeat evt i => exact hlist _ i (seats_sorted c) hl hmem hne
  | cancelBooking => cases hmem
  | cancelSeat booking rows i =>
    rcases List.mem_cons.mp hmem with rfl | hmem
    · exact Nat.succ_pos _
    · exact hlist _ i hl.2 (by simpa using hl.1) hmem hne

/-! ## Waiting -/

/-- Every running call keeps its lock order. -/
def Ideal.LocksOrdered (s : Ideal) : Prop :=
  ∀ i c pc, s.procs i = .running c pc → LockOrder c (s.own i) pc

theorem Sim.own_idle {w : World} {s : Ideal} (h : Sim w s) {i : Nat} (hi : ¬ w.Unfinished i) :
    s.own i = [] := by
  have hr := h.inv.rep i
  cases hp : w.procs i with
  | running c pc => exact absurd ⟨c, pc, hp⟩ hi
  | idle => rw [hp] at hr; exact hr
  | done c rc out => rw [hp] at hr; exact hr

theorem locksOrdered_step {w : World} {s s' : Ideal} {a : Action} (hsim : Sim w s)
    (h : s.LocksOrdered) (hs : s.Step a s') : s'.LocksOrdered := by
  cases hs with
  | @start i c hi =>
    intro j d pc hj
    by_cases hji : j = i
    · subst hji
      simp only [Function.update_self, Proc.running.injEq] at hj
      obtain ⟨rfl, rfl⟩ := hj
      have ho : s.own j = [] := by
        refine hsim.own_idle ?_
        rintro ⟨d, pc, hp⟩
        rw [← hsim.procs, hi] at hp
        cases hp
      cases c <;> exact ho
    · simp only [Function.update_of_ne hji] at hj
      exact h j d pc hj
  | @run i env c pc db' own' next hi hstep =>
    intro j d q hj
    by_cases hji : j = i
    · subst hji
      simp only [Function.update_self] at hj ⊢
      cases next with
      | ret rc out => cases hj
      | goto pc' =>
        simp only [Next.proc, Proc.running.injEq] at hj
        obtain ⟨rfl, rfl⟩ := hj
        exact lockOrder_step (h j c pc hi) hstep
    · simp only [Function.update_of_ne hji] at hj ⊢
      exact h j d q hj

/-- The call holds the lock: it is registered in its transaction, or on its way in or out. -/
def World.Holds (w : World) (i : Nat) (key : LockKey) : Prop :=
  ∃ c pc, w.procs i = .running c pc ∧
    (key ∈ pc.loose c ∨ ∃ txn locks, pc.txn = some txn ∧ w.tm.HasTxn txn locks ∧ key ∈ locks)

/-- The call waits for a record. -/
def World.WaitsOn (w : World) (i : Nat) (key : LockKey) : Prop :=
  ∃ c txn site, w.procs i = .running c (.lock .acquire txn site) ∧ lockKey c site = key ∧
    lockMgrLock w.locks key .exclusive = none

/-- `i` sleeps in `lock_mgr_lock` on a record that `j` holds. -/
def World.WaitsFor (w : World) (i j : Nat) : Prop := ∃ key, w.WaitsOn i key ∧ w.Holds j key

theorem Sim.mem_own {w : World} {s : Ideal} (h : Sim w s) {i : Nat} {key : LockKey}
    (hk : w.Holds i key) : key ∈ s.own i := by
  obtain ⟨c, pc, hi, hk⟩ := hk
  have hr := h.inv.rep i
  rw [hi] at hr
  have h2 := hr.2
  rcases hk with hk | ⟨txn, locks, ht, ⟨n, hn⟩, hk⟩
  · cases ht : pc.txn with
    | none => rw [ht] at h2; rw [h2]; exact hk
    | some txn =>
      rw [ht] at h2
      obtain ⟨locks, -, ho⟩ := h2
      rw [ho]
      exact List.mem_append_right _ hk
  · rw [ht] at h2
    obtain ⟨locks', ⟨m, hm⟩, ho⟩ := h2
    have hmn : m = n := h.inv.distinct m n _ _ hm hn rfl
    subst hmn
    rw [hn, Option.some.injEq, Txn.mk.injEq] at hm
    rw [ho, ← hm.2]
    exact List.mem_append_left _ hk

/-- A call that waits is kept out by an unfinished call. -/
theorem Sim.holder {w : World} {s : Ideal} (h : Sim w s) {i : Nat} {key : LockKey}
    (hw : w.WaitsOn i key) : ∃ j, w.Unfinished j ∧ key ∈ s.own j := by
  obtain ⟨c, txn, site, -, rfl, hnone⟩ := hw
  have hheld : (w.locks (lockKey c site)).exclusiveHeld = true := by
    simp only [lockMgrLock, h.inv.no_shared] at hnone
    split at hnone
    · rename_i hor
      simpa using hor
    · cases hnone
  obtain ⟨j, hj⟩ := (h.inv.held _).mp hheld
  refine ⟨j, ?_, hj⟩
  by_contra hun
  rw [h.own_idle hun] at hj
  cases hj

/-- Along the wait-for relation the awaited records ascend. -/
theorem waits_ascending {w : World} {s : Ideal} (h : Sim w s) (ho : s.LocksOrdered) {j : Nat}
    {key key' : LockKey} (hi : key ∈ s.own j) (hj : w.WaitsOn j key') : key.rank < key'.rank := by
  obtain ⟨c, txn, site, hp, rfl, -⟩ := hj
  exact rank_lt_of_waiting (ho j c _ (by rw [h.procs]; exact hp)) hi

theorem waitsOn_of_blocked {w : World} {i : Nat} (h : w.Blocked i) : ∃ key, w.WaitsOn i key := by
  obtain ⟨c, txn, site, hp, hnone⟩ := h
  exact ⟨_, c, txn, site, hp, rfl, hnone⟩

theorem WaitsOn.unique {w : World} {i : Nat} {key key' : LockKey} (h : w.WaitsOn i key)
    (h' : w.WaitsOn i key') : key = key' := by
  obtain ⟨c, txn, site, hp, rfl, -⟩ := h
  obtain ⟨c', txn', site', hp', rfl, -⟩ := h'
  rw [hp, Proc.running.injEq, Pc.lock.injEq] at hp'
  obtain ⟨rfl, -, -, rfl⟩ := hp'
  rfl

/-- Some unfinished call is not blocked: otherwise take the one that waits for the record of the
highest rank; whoever holds that record waits for a higher one. -/
theorem Sim.progress {w : World} {s : Ideal} (h : Sim w s) (ho : s.LocksOrdered)
    (hun : ∃ i, w.Unfinished i) : ∃ i, w.Unfinished i ∧ ¬ w.Blocked i := by
  classical
  by_contra hall
  have hblocked : ∀ i, w.Unfinished i → ∃ key, w.WaitsOn i key := by
    intro i hi
    by_contra hno
    exact hall ⟨i, hi, fun hb => hno (waitsOn_of_blocked hb)⟩
  obtain ⟨n, hn⟩ := h.inv.finite
  have hlt : ∀ i, w.Unfinished i → i < n := by
    rintro i ⟨c, pc, hp⟩
    by_contra hge
    rw [hn i (Nat.not_lt.mp hge)] at hp
    cases hp
  let waiting : Finset Nat := (Finset.range n).filter (fun i => w.Unfinished i)
  have hmem : ∀ i, i ∈ waiting ↔ w.Unfinished i := by
    intro i
    simp only [waiting, Finset.mem_filter, Finset.mem_range]
    exact ⟨fun hi => hi.2, fun hi => ⟨hlt i hi, hi⟩⟩
  let awaited : Nat → Nat := fun i =>
    if hi : ∃ key, w.WaitsOn i key then (Classical.choose hi).rank else 0
  have hawaited : ∀ i key, w.WaitsOn i key → awaited i = key.rank := by
    intro i key hw
    have hex : ∃ key, w.WaitsOn i key := ⟨key, hw⟩
    simp only [awaited, dif_pos hex]
    rw [WaitsOn.unique (Classical.choose_spec hex) hw]
  obtain ⟨i₀, hi₀⟩ := hun
  obtain ⟨i, hi, hmax⟩ := Finset.exists_max_image waiting awaited ⟨i₀, (hmem i₀).mpr hi₀⟩
  obtain ⟨key, hkey⟩ := hblocked i ((hmem i).mp hi)
  obtain ⟨j, hj, hown⟩ := h.holder hkey
  obtain ⟨key', hkey'⟩ := hblocked j hj
  have hlt' := waits_ascending h ho hown hkey'
  have hle := hmax j ((hmem j).mpr hj)
  rw [hawaited i key hkey, hawaited j key' hkey'] at hle
  omega

/-- The wait-for relation has no cycle. -/
theorem Sim.acyclic {w : World} {s : Ideal} (h : Sim w s) (ho : s.LocksOrdered) (i : Nat) :
    ¬ Relation.TransGen w.WaitsFor i i := by
  have hchain : ∀ a b, Relation.TransGen w.WaitsFor a b → ∀ key key', w.WaitsOn a key →
      w.WaitsOn b key' → key.rank < key'.rank := by
    intro a b hab
    induction hab with
    | single hstep =>
      intro key key' ha hb
      obtain ⟨k, hk, hheld⟩ := hstep
      rw [WaitsOn.unique ha hk]
      exact waits_ascending h ho (h.mem_own hheld) hb
    | tail _ hstep ih =>
      intro key key' ha hb
      obtain ⟨k, hk, hheld⟩ := hstep
      exact Nat.lt_trans (ih key k ha hk) (waits_ascending h ho (h.mem_own hheld) hb)
  intro hcycle
  obtain ⟨key, hkey⟩ : ∃ key, w.WaitsOn i key := by
    cases Relation.TransGen.head'_iff.mp hcycle with
    | intro b hb =>
      obtain ⟨key, hkey, -⟩ := hb.1
      exact ⟨key, hkey⟩
  exact Nat.lt_irrefl _ (hchain i i hcycle key key hkey hkey)

/-- **Booking never deadlocks** as long as transactions begin under fresh ids: whatever the calls,
the interleaving and the failures, some unfinished call is not blocked, and no call waits, directly
or through others, for itself. -/
theorem booking_deadlock_free (db : Db) {w : World}
    (h : Reachable step FreshTxn (World.init db) w) :
    ((∃ i, w.Unfinished i) → ∃ i, w.Unfinished i ∧ ¬ w.Blocked i) ∧
      ∀ i, ¬ Relation.TransGen w.WaitsFor i i := by
  obtain ⟨s, hsim, ho⟩ := Sim.reachable (I := Ideal.LocksOrdered) (fun _ _ h => h)
    (fun i c pc hp => by cases hp) (fun _ _ _ _ hsim _ ho hs => locksOrdered_step hsim ho hs) h
  exact ⟨hsim.progress ho, hsim.acyclic ho⟩

/-- Two bookings of one seat: the second waits and the first can go on. -/
theorem booking_deadlock_free_contended : ∃ w, Reachable step FreshTxn (World.init smallDb) w ∧
    w.Blocked 1 ∧ (∃ i, w.Unfinished i ∧ ¬ w.Blocked i) ∧
    ∀ i, ¬ Relation.TransGen w.WaitsFor i i := by
  have hrun : (runSteps step World.isFresh (World.init smallDb)
      (.start 0 (.book 7 1 [2, 1]) :: runs 0 8 ++ .start 1 (.book 8 1 [1]) :: runs 1 3)).any
        (fun w => w.isBlocked 1) = true := by
    decide +kernel
  obtain ⟨w, hw, hcheck⟩ := (Option.any_eq_true _ _).mp hrun
  have hreach := Reachable.of_runSteps (fun _ _ h => freshTxn_of_isFresh h) hw
  have hb := blocked_of_isBlocked hcheck
  obtain ⟨c, txn, site, hp, -⟩ := id hb
  obtain ⟨hprogress, hacyclic⟩ := booking_deadlock_free smallDb hreach
  exact ⟨w, hreach, hb, hprogress ⟨1, c, _, hp⟩, hacyclic⟩

/-- A call about to insert a record finds the id counter not exhausted. -/
def Pc.HasRoom (db : Db) : Pc → Prop
  | .table _ (.bookInsert _) => db.bookings.nextId < 2 ^ 32
  | .table _ (.bookJunction _ _) => db.bookingSeats.nextId < 2 ^ 32
  | _ => True

end Ticketing
