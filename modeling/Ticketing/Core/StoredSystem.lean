import Ticketing.Core.StoredSimulation

/-!
# The engine over the tables on disk does what the engine over ordered tables does

The systems of `StoredEngine` and `BookingEngine` side by side: the same calls, the same interleaving, pages
and bytes on the one side, tables of records on the other.

* `StoredWorld.Shows` — the systems stand alike.
* `storedStep_alike`, `storedWorld_lockstep` — then they move alike.
* `stored_engine_simulates` — whole runs; `stored_engine_follows` — a run there is one here, with room for it.
-/

set_option autoImplicit false

namespace Ticketing

/-! ## The log between two calls -/

section Markers

variable {s : TableStore} {L : TableId → OTable Bytes} {tm : TxnManager} {wal : Wal} {id : UInt32}

theorem TableStore.HasRoom.mono {k k' : Nat} (h : s.HasRoom k) (hk : k' ≤ k) : s.HasRoom k' :=
  ⟨fun id => Nat.lt_of_le_of_lt (Nat.add_le_add_left hk _) (h.1 id),
    Nat.lt_of_le_of_lt (Nat.add_le_add_left hk _) h.2⟩

theorem TableStore.HasRoom.grew {s' : TableStore} {k : Nat} (h : s.HasRoom (k + 1)) (hgrew : s.Grew s') :
    s'.HasRoom k := by
  refine ⟨fun id => ?_, ?_⟩
  · have hids := hgrew.ids id
    have hroom := h.1 id
    omega
  · have hlog := hgrew.log.lsn
    have hroom := h.2
    omega

theorem TableStore.Grew.refl : s.Grew s := ⟨fun _ => Nat.le_succ _, Nat.le_succ _, Nat.le_refl _, fun _ _ => rfl⟩

theorem TableStore.Ready.kept (h : s.Ready L) : Served s s L := ⟨.refl, h.shows⟩

/-- The log with one marker more, or none. -/
def Marked (wal wal' : Wal) : Prop :=
  ∃ rs, rs.length ≤ 1 ∧ (∀ recs T, Determines recs T → Determines (recs ++ rs) T) ∧
    ∀ recs, LogHolds recs wal → LogHolds (recs ++ rs) wal'

theorem Marked.refl : Marked wal wal :=
  ⟨[], Nat.zero_le _, fun recs T h => by rwa [List.append_nil], fun recs h => by rwa [List.append_nil]⟩

/-- A marker says nothing about records. -/
theorem Determines.marker {recs : List WalRecord} {T : TableId → OTable Bytes} (h : Determines recs T) {op : WalOp}
    (hop : op = .commit ∨ op = .abort) (txn : UInt32) : Determines (recs ++ [.marker op txn]) T := by
  have hsame : ∀ (data : LoggedData) lsn, ((WalRecord.marker op txn).replay lsn).apply data = data := by
    intro data lsn
    funext table key
    rcases hop with rfl | rfl <;> exact ite_self _
  intro id key
  rw [replays_append, List.foldl_append, replays, replays, List.foldl_cons, List.foldl_nil, hsame]
  exact h id key

/-- A marker that is written, whether it is flushed or not. -/
theorem Marked.logged {op : WalOp} (hop : op = .commit ∨ op = .abort) (txn : UInt32) {wal' : Wal}
    (hfile : wal'.file = (wal.logged (.marker op txn)).file)
    (hlsn : wal'.nextLsn = (wal.logged (.marker op txn)).nextLsn) : Marked wal wal' :=
  ⟨[.marker op txn], Nat.le_refl _, fun _ _ h => h.marker hop txn,
    fun _ h => ⟨hfile.trans (h.logged _).file, hlsn.trans (h.logged _).nextLsn⟩⟩

/-- A marker in the log does not touch the tables. -/
theorem TableStore.Ready.marked (h : s.Ready L) (hwal : Marked s.wal wal) : Served s { s with wal := wal } L := by
  obtain ⟨recs, T, hlen, hholds, hdet, hT⟩ := h.shows.recorded
  obtain ⟨rs, hrs, hkeeps, hlogs⟩ := hwal
  obtain ⟨n, hn, hn', hstore⟩ := hholds.store
  have hlog := hlogs recs hholds.log
  obtain ⟨hlen', hgrew⟩ := hholds.log.grew hlog hrs hlen h.room.2
  exact ⟨⟨fun _ => Nat.le_succ _, hgrew⟩, h.shows.indexes, recs ++ rs, T, hlen',
    ⟨⟨n, hn, hn', ⟨hstore.distinct, hstore.next, hstore.saved, hstore.tables⟩⟩, hholds.stamped, hholds.dense, hlog,
      hholds.assigned⟩, hkeeps recs T hdet, hT⟩

/-- `txn_commit` with a log that can be written and flushed. -/
theorem txnCommit_ok (hlsn : wal.nextLsn ≠ INVALID_LSN) :
    (txnCommit tm wal id .ok .ok).1 = (txnCommitSection tm id true true).1 ∧
      (txnCommit tm wal id .ok .ok).2.1 = (txnCommitSection tm id true true).2 ∧
      Marked wal (txnCommit tm wal id .ok .ok).2.2 := by
  have happend : walLogCommit wal id (fun _ => .ok) = _ := walAppend_ok wal (.marker .commit id)
  unfold txnCommit
  cases hfind : findTxnLocked tm id with
  | none =>
    unfold txnCommitSection
    rw [hfind]
    exact ⟨rfl, rfl, .refl⟩
  | some i =>
    dsimp only
    rw [happend, if_neg hlsn]
    exact ⟨rfl, rfl, .logged (Or.inl rfl) id rfl rfl⟩

theorem txnAbort_ok : Marked wal (txnAbort tm wal id .ok).2 := by
  have happend : walLogAbort wal id (fun _ => .ok) = _ := walAppend_ok wal (.marker .abort id)
  unfold txnAbort
  cases hfind : findTxnLocked tm id with
  | none => exact .refl
  | some i =>
    dsimp only
    rw [happend]
    exact .logged (Or.inr rfl) id rfl rfl

theorem StoreShows.lsn (h : StoreShows s L) : s.wal.nextLsn ≠ INVALID_LSN := by
  obtain ⟨recs, T, hlen, hholds, -⟩ := h.recorded
  exact hholds.log.lsn hlen

end Markers

/-! ## One step of a call -/

/-- What the calls share, at the two levels. -/
structure SharedShows (s' : StoredShared) (s : Shared) : Prop where
  tables : ∃ L, StoreShows s'.store L ∧ DbShows L s.db
  locks : s'.locks = s.locks
  tm : s'.tm = s.tm

/-- The same after a step that began with `store`. -/
structure SharedServed (store : TableStore) (s' : StoredShared) (s : Shared) : Prop where
  tables : ∃ L, Served store s'.store L ∧ DbShows L s.db
  locks : s'.locks = s.locks
  tm : s'.tm = s.tm

theorem SharedServed.shows {store : TableStore} {s' : StoredShared} {s : Shared}
    (h : SharedServed store s' s) : SharedShows s' s := by
  obtain ⟨L, hserved, hdb⟩ := h.tables
  exact ⟨⟨L, hserved.shows, hdb⟩, h.locks, h.tm⟩

theorem SharedServed.grew {store : TableStore} {s' : StoredShared} {s : Shared}
    (h : SharedServed store s' s) : store.Grew s'.store := by
  obtain ⟨L, hserved, -⟩ := h.tables
  exact hserved.toGrew

/-- The surroundings in which the tables and the log work. -/
def Env.working (now : Int) (lockAlloc : Bool) : Env := ⟨now, .ok, lockAlloc, true, true⟩

section Steps

variable {c : Call} {now : Int} {lockAlloc : Bool}

theorem Call.length_of_valid (h : c.validSeats = true) : c.seatIds.length ≤ MAX_SEATS_PER_BOOKING := by
  simp only [Call.validSeats, Bool.and_eq_true, decide_eq_true_eq] at h
  exact h.1.1.2

theorem storedBookStart_alike {s : TableStore} {L : TableId → OTable Bytes} {db : Db} {env : Env}
    (h : s.Ready L) (henv : env.storage = .ok) (hdb : DbShows L db) :
    Option.Rel (fun r' r => (∃ L, Served s r'.1 L ∧ DbShows L r.1) ∧ NextShows c r'.2 r.2)
      (storedBookStart c s) (bookStart c env db) := by
  unfold storedBookStart bookStart
  split
  · rename_i hvalid
    rcases @find_alike s L db env _ _ _ _ h henv hdb.events c.eventId with
      ⟨s', hs, hd, hserved⟩ | ⟨s', e, evt, hs, hd, ⟨hevt, -⟩, hserved⟩
    · rw [hs, hd]
      exact .some ⟨⟨L, hserved, hdb⟩, .ret .errNotFound none⟩
    · rw [hs, hd]
      refine .some ⟨⟨L, hserved, hdb⟩, ?_⟩
      dsimp only
      rw [hevt.status]
      by_cases hactive : evt.status = .active
      · rw [if_neg (not_not.mpr (congrArg _ hactive)), if_neg (not_not.mpr hactive)]
        exact .goto (Call.length_of_valid hvalid) (.begin (.some hevt))
      · rw [if_pos (fun hcode => hactive (EventStatus.code_injective hcode)), if_pos hactive]
        exact .ret .errGeneric none
  · exact .some ⟨⟨L, h.kept, hdb⟩, .ret .errInvalidArg none⟩

/-- **One step of a call**, over the pages and over ordered tables: both wait, or both go on to states that
stand alike. -/
theorem storedStep_alike {s' : StoredShared} {s : Shared} (hs : SharedShows s' s)
    (hroom : s'.store.HasRoom 1) (hc : c.Fits) (htime : -(2 ^ 63) ≤ now ∧ now < 2 ^ 63) {pc' : StoredPc} {pc : Pc}
    (hlen : pc' = .bookStart ∨ c.seatIds.length ≤ MAX_SEATS_PER_BOOKING) (hpc : PcShows c pc' pc) :
    Option.Rel (fun r' r => SharedServed s'.store r'.1 r.1 ∧ NextShows c r'.2 r.2)
      (storedStep c now lockAlloc s' pc') (pcStep c (Env.working now lockAlloc) s pc) := by
  obtain ⟨store, locks, tm⟩ := s'
  obtain ⟨db, locks₂, tm₂⟩ := s
  obtain ⟨⟨L, hstore, hdb⟩, hlocks, htm⟩ := hs
  dsimp only at hstore hdb hlocks htm hroom
  subst hlocks htm
  have hready : store.Ready L := ⟨hstore, hroom⟩
  have hkeep : ∀ {locks : LockManager} {tm : TxnManager},
      SharedServed store ⟨store, locks, tm⟩ ⟨db, locks, tm⟩ := ⟨⟨L, hready.kept, hdb⟩, rfl, rfl⟩
  cases hpc with
  | bookStart =>
    exact rel_map (storedBookStart_alike hready rfl hdb) fun _ _ hr => ⟨⟨hr.1, rfl, rfl⟩, hr.2⟩
  | begin hevt =>
    have hseats := hlen.resolve_left (by simp)
    simp only [storedStep, pcStep]
    by_cases hfull : (txnBegin tm).1 = INVALID_TXN_ID
    · rw [if_pos hfull, if_pos hfull]
      exact .some ⟨hkeep, .ret .errGeneric none⟩
    · rw [if_neg hfull, if_neg hfull]
      exact .some ⟨hkeep, .goto hseats (pcShows_afterBegin hevt)⟩
  | @lock stage txn site' site hsite =>
    have hseats := hlen.resolve_left (by simp)
    cases stage with
    | check =>
      simp only [storedStep, pcStep, hsite.key]
      cases txnLockCheck tm txn (lockKey c site) with
      | refused => exact .some ⟨hkeep, .goto hseats (.abort txn .errGeneric)⟩
      | held => exact .some ⟨hkeep, .goto hseats (pcShows_afterLock hsite)⟩
      | acquire => exact .some ⟨hkeep, .goto hseats (.lock .acquire txn hsite)⟩
    | acquire =>
      simp only [storedStep, pcStep, hsite.key, Env.working]
      cases lockMgrLock locks (lockKey c site) .exclusive with
      | none => exact .none
      | some locks' =>
        cases lockAlloc with
        | false => exact .some ⟨hkeep, .goto hseats (.abort txn .errGeneric)⟩
        | true => exact .some ⟨hkeep, .goto hseats (.lock .register txn hsite)⟩
    | register =>
      simp only [storedStep, pcStep, hsite.key]
      cases txnLockRegister tm txn (lockKey c site) with
      | some tm' => exact .some ⟨hkeep, .goto hseats (pcShows_afterLock hsite)⟩
      | none => exact .some ⟨hkeep, .goto hseats (.orphan txn _)⟩
  | table txn hts =>
    have hseats := hlen.resolve_left (by simp)
    exact rel_map (@storedTableStep_alike store L db (Env.working now lockAlloc) c txn hready rfl hdb hc hseats
      htime.1 htime.2 _ _ hts) fun _ _ hr => ⟨⟨hr.1, rfl, rfl⟩, .goto hseats hr.2⟩
  | commit txn out =>
    have hseats := hlen.resolve_left (by simp)
    obtain ⟨hout, htm, hwal⟩ := @txnCommit_ok tm store.wal txn hstore.lsn
    have hmarked : ∀ {tm' : TxnManager}, SharedServed store
        ⟨{ store with wal := (txnCommit tm store.wal txn .ok .ok).2.2 }, locks, tm'⟩ ⟨db, locks, tm'⟩ :=
      ⟨⟨L, hready.marked hwal, hdb⟩, rfl, rfl⟩
    simp only [storedStep, pcStep, Env.working, hout, htm]
    cases (txnCommitSection tm txn true true).1 with
    | refused => exact .some ⟨hmarked, .ret .errIo none⟩
    | failed => exact .some ⟨hmarked, .goto hseats (.abort txn .errIo)⟩
    | committed keys => exact .some ⟨hmarked, .goto hseats (.release keys .ok out)⟩
  | abort txn rc =>
    have hseats := hlen.resolve_left (by simp)
    have hmarked : ∀ {tm' : TxnManager}, SharedServed store
        ⟨{ store with wal := (txnAbort tm store.wal txn .ok).2 }, locks, tm'⟩ ⟨db, locks, tm'⟩ :=
      ⟨⟨L, hready.marked txnAbort_ok, hdb⟩, rfl, rfl⟩
    simp only [storedStep, pcStep]
    cases (txnAbortSection tm txn).1 with
    | none => exact .some ⟨hmarked, .ret rc none⟩
    | some keys => exact .some ⟨hmarked, .goto hseats (.release keys rc none)⟩
  | orphan txn key =>
    exact .some ⟨hkeep, .goto (hlen.resolve_left (by simp)) (.abort txn .errGeneric)⟩
  | release keys rc out =>
    have hseats := hlen.resolve_left (by simp)
    cases keys with
    | nil => exact .some ⟨hkeep, .ret rc out⟩
    | cons key keys => exact .some ⟨hkeep, .goto hseats (.release keys rc out)⟩

end Steps

/-! ## The systems -/

/-- The systems stand alike: the tables hold the same records, the same locks are taken, and every call is
at the same point or has returned the same. -/
structure StoredWorld.Shows (w' : StoredWorld) (w : World) : Prop extends
    SharedShows w'.toStoredShared w.toShared where
  procs : ∀ i, ProcShows (w'.procs i) (w.procs i)

/-- The step of the other system. -/
def StoredAction.typed : StoredAction → Action
  | .start i c => .start i c
  | .run i now lockAlloc => .run i (.working now lockAlloc)

section Systems

theorem procShows_update {procs' : Nat → StoredProc} {procs : Nat → Proc} (h : ∀ i, ProcShows (procs' i) (procs i))
    (i : Nat) {p' : StoredProc} {p : Proc} (hp : ProcShows p' p) (j : Nat) :
    ProcShows (Function.update procs' i p' j) (Function.update procs i p j) := by
  rcases eq_or_ne j i with rfl | hne
  · rwa [Function.update_self, Function.update_self]
  · rw [Function.update_of_ne hne, Function.update_of_ne hne]
    exact h j

theorem procShows_entry {c : Call} (hc : c.Fits) : ProcShows (.running c c.storedEntry) (.running c c.entry) := by
  cases c with
  | book userId eventId seatIds => exact .running hc (Or.inl rfl) .bookStart
  | cancel bookingId userId => exact .running hc (Or.inr (Nat.zero_le _)) (.begin .none)

theorem NextShows.proc {c : Call} (hc : c.Fits) {next' : StoredNext} {next : Next} (h : NextShows c next' next) :
    ProcShows (next'.proc c) (next.proc c) := by
  cases h with
  | goto hlen hpc => exact .running hc (Or.inr hlen) hpc
  | ret rc out => exact .done c rc out

/-- **The systems move alike**, and the tables grow by no more than a step's worth. -/
theorem storedWorld_step_alike {w' : StoredWorld} {w : World} (hw : w'.Shows w)
    {a : StoredAction} (hroom : w'.Room a) :
    Option.Rel (fun w₁' w₁ => w₁'.Shows w₁ ∧ w'.store.Grew w₁'.store) (w'.step a) (step w a.typed) := by
  obtain ⟨hroom, hfits⟩ := hroom
  cases a with
  | start i c =>
    have hproc := hw.procs i
    simp only [StoredWorld.step, StoredAction.typed, step]
    generalize w'.procs i = p' at hproc ⊢
    generalize w.procs i = p at hproc ⊢
    cases hproc with
    | idle => exact .some ⟨⟨hw.toSharedShows, procShows_update hw.procs i (procShows_entry hfits)⟩, .refl⟩
    | running _ _ _ => exact .none
    | done _ _ _ => exact .none
  | run i now lockAlloc =>
    have hproc := hw.procs i
    simp only [StoredWorld.step, StoredAction.typed, step]
    generalize w'.procs i = p' at hproc ⊢
    generalize w.procs i = p at hproc ⊢
    cases hproc with
    | idle => exact .none
    | done _ _ _ => exact .none
    | running hc hlen hpc =>
      exact rel_map (storedStep_alike hw.toSharedShows hroom hc hfits hlen hpc) fun _ _ hr =>
        ⟨⟨hr.1.shows, procShows_update hw.procs i (hr.2.proc hc)⟩, hr.1.grew⟩

theorem storedWorld_lockstep :
    Lockstep StoredWorld.step step StoredAction.typed StoredWorld.Room StoredWorld.Shows :=
  fun _ _ _ hw hroom => rel_imp (storedWorld_step_alike hw hroom) fun _ _ hr => hr.1

/-- An orderly step is a steady one there. -/
theorem StoredWorld.Shows.steady {w' : StoredWorld} {w : World} (hw : w'.Shows w) {a : StoredAction}
    (h : w'.Orderly a) : Steady w a.typed := by
  obtain ⟨-, h⟩ := h
  cases a with
  | start i c => exact ⟨trivial, trivial, trivial⟩
  | run i now lockAlloc =>
    have hproc := hw.procs i
    refine ⟨⟨rfl, rfl, rfl⟩, fun c evt hp => ?_, fun c txn booking rows k hp hk => ?_⟩
    · rw [hp] at hproc
      rw [← hw.tm]
      generalize hp' : w'.procs i = p' at hproc
      cases hproc with
      | running _ _ hpc =>
        cases hpc with
        | begin _ => exact h.1 c _ hp'
    · rw [hp] at hproc
      generalize hp' : w'.procs i = p' at hproc
      cases hproc with
      | running _ _ hpc =>
        cases hpc with
        | lock _ _ hsite =>
          cases hsite with
          | cancelSeat _ _ _ => exact h.2 c txn _ _ k hp' hk

/-- A step that passes the check there is orderly here. -/
theorem StoredWorld.Shows.orderly_of_check {w' : StoredWorld} {w : World} (hw : w'.Shows w)
    (hroom : w'.store.HasRoom 1) {a : StoredAction} (hfits : a.Fits) (hcheck : w.isOrderly a.typed = true) :
    w'.Orderly a := by
  obtain ⟨hfine, hfresh⟩ := orderly_of_isOrderly w a.typed hcheck
  refine ⟨⟨hroom, hfits⟩, ?_⟩
  cases a with
  | start i c => trivial
  | run i now lockAlloc =>
    refine ⟨fun c evt hp' => ?_, fun _ _ _ _ _ _ _ => hfine.2.1⟩
    have hproc := hw.procs i
    rw [hp'] at hproc
    rw [hw.tm]
    generalize hp : w.procs i = p at hproc
    cases hproc with
    | running _ _ hpc =>
      cases hpc with
      | begin _ => exact hfresh c _ hp

theorem storedWorld_init {s : TableStore} {L : TableId → OTable Bytes} {db : Db} (hstore : StoreShows s L)
    (hdb : DbShows L db) : StoredWorld.Shows (StoredWorld.init s) (World.init db) :=
  ⟨⟨⟨L, hstore, hdb⟩, rfl, rfl⟩, fun _ => .idle⟩

end Systems

/-! ## Whole runs -/

section Runs

variable {s : TableStore} {L : TableId → OTable Bytes} {db : Db}

/-- **The engine over the pages is the engine over ordered tables.**  The tables hold records that show the
database.  Whatever the calls and the interleaving, as long as ids and log numbers last: every state of the
system on disk stands like one that the system over ordered tables reaches by the same steps; there each step
is as possible as here, and leads to states that stand alike. -/
theorem stored_engine_simulates (hstore : StoreShows s L) (hdb : DbShows L db)
    {w' : StoredWorld} (h : Reachable StoredWorld.step StoredWorld.Room (StoredWorld.init s) w') :
    ∃ w, Reachable step (fun _ a => a ∈ Set.range StoredAction.typed) (World.init db) w ∧ w'.Shows w ∧
      ∀ a, w'.Room a → Option.Rel StoredWorld.Shows (w'.step a) (step w a.typed) := by
  obtain ⟨w, hreach, hw⟩ : ∃ w, Reachable step (fun _ a => a ∈ Set.range StoredAction.typed) (World.init db) w ∧
      w'.Shows w :=
    storedWorld_lockstep.reachable (fun _ _ a _ _ => ⟨a, rfl⟩) (storedWorld_init hstore hdb) h
  exact ⟨w, hreach, hw, fun a ha => storedWorld_lockstep _ _ a hw ha⟩

end Runs

theorem StoredWorld.init_room {s : TableStore} {k : Nat} (h : s.HasRoom k) :
    (StoredWorld.init s).store.HasRoom k := h

/-- A run of the engine over ordered tables is one of the engine on disk, if the tables have room for it. -/
theorem stored_engine_follows {w' : StoredWorld} {w w₁ : World}
    (hw : w'.Shows w) {as : List StoredAction} (hfits : ∀ a ∈ as, a.Fits) (hroom : w'.store.HasRoom as.length)
    (hrun : runSteps step World.isOrderly w (as.map StoredAction.typed) = some w₁) :
    ∃ w₁', Reachable StoredWorld.step (fun v a => v.Orderly a ∧ a ∈ as) w' w₁' ∧ w₁'.Shows w₁ := by
  obtain ⟨w₁', hreach, hw₁, -⟩ : ∃ w₁', Reachable StoredWorld.step (fun v a => v.Orderly a ∧ a ∈ as) w' w₁' ∧
      w₁'.Shows w₁ ∧ w₁'.store.HasRoom 0 := by
    refine Reachable.of_related_run (fun k (v' : StoredWorld) v => v'.Shows v ∧ v'.store.HasRoom k) ?_
      (fun a ha => ha) ⟨hw, hroom⟩ hrun
    rintro k v' v a ⟨hv, hroom⟩ ha hcheck
    have horderly := hv.orderly_of_check (hroom.mono (Nat.le_add_left 1 k)) (hfits a ha) hcheck
    exact ⟨⟨horderly, ha⟩, rel_imp (storedWorld_step_alike hv horderly.1) fun _ _ hr => ⟨hr.1, hroom.grew hr.2⟩⟩
  exact ⟨w₁', hreach, hw₁⟩

/-! ## A store to run on -/

/-- An active event at price 0. -/
def smallEvent : Bytes := List.replicate (etpRecordSize .events) 0

/-- A free seat of event 1. -/
def smallSeat (number : Nat) : Bytes :=
  PackedField.assign [(SeatLayout.eventId, 1), (SeatLayout.rowLabel, 65), (SeatLayout.seatNumber, number)]
    (List.replicate (etpRecordSize .seats) 0)

/-- An event and its two seats. -/
def smallCalls : List (TableId × RowCall) :=
  [(.events, .insert (recordAt smallEvent 0) allocOk), (.seats, .insert (recordAt (smallSeat 1) 0) allocOk),
    (.seats, .insert (recordAt (smallSeat 2) 0) allocOk)]

/-- New tables with four frames, after these calls. -/
def smallStore : TableStore := (runOps TableStore.call (tablesCreate 4 fiveFds) smallCalls).2

/-- The records in it. -/
def smallStoreDb : Db := { smallDb with events := (OTable.empty 1).insert ⟨.active, Float32.ofBits 0⟩ }

section SmallStore

theorem smallEvent_live : LiveRecord .events smallEvent := ⟨by decide +kernel, by decide +kernel⟩

theorem smallSeat_live (number : Nat) : LiveRecord .seats (smallSeat number) := by
  have hnames : [(SeatLayout.eventId, 1), (SeatLayout.rowLabel, 65), (SeatLayout.seatNumber, number)].map Prod.fst =
      [SeatLayout.eventId, SeatLayout.rowLabel, SeatLayout.seatNumber] := rfl
  have hzeros : LiveRecord .seats (List.replicate (etpRecordSize .seats) 0) := ⟨by decide +kernel, by decide +kernel⟩
  exact hzeros.assign hnames (by decide) (by decide)

theorem smallCalls_fit : OpsOk specStep CallFits (fun _ => OTable.empty 1) smallCalls :=
  ⟨⟨⟨rfl, smallEvent_live.flag, by decide⟩, trivial⟩, ⟨⟨rfl, (smallSeat_live 1).flag, by decide⟩, trivial⟩,
    ⟨⟨rfl, (smallSeat_live 2).flag, by decide⟩, trivial⟩, trivial⟩

/-- The lists of records that the calls leave. -/
def smallRows : TableId → OTable Bytes := (runOps specStep (fun _ => OTable.empty 1) smallCalls).2

theorem smallRows_shows : DbShows smallRows smallStoreDb := by
  have hevents : smallRows .events = (OTable.empty 1).insert ((keyField .events).set 1 smallEvent) :=
    congrArg (OTable.empty 1).insert (smallEvent_live.stored 1)
  have hseats : smallRows .seats =
      ((OTable.empty 1).insert ((keyField .seats).set 1 (smallSeat 1))).insert
        ((keyField .seats).set 2 (smallSeat 2)) :=
    congrArg₂ (fun a b => ((OTable.empty 1).insert a).insert b) ((smallSeat_live 1).stored 1)
      ((smallSeat_live 2).stored 2)
  refine ⟨hevents ▸ (OTable.related_empty 1).insert ?_,
    hseats ▸ ((OTable.related_empty 1).insert ?_).insert ?_, OTable.related_empty 1, OTable.related_empty 1⟩
  · have hprice : (0 : UInt32) = UInt32.ofNat (EventLayout.price.get ((keyField .events).set 1 smallEvent)) := by
      decide +kernel
    exact ⟨smallEvent_live.keyed 1, congrArg Float32.ofBits hprice, by decide +kernel⟩
  · exact ⟨(smallSeat_live 1).keyed 1, by decide +kernel, by decide +kernel, by decide +kernel, by decide +kernel,
      by decide +kernel⟩
  · exact ⟨(smallSeat_live 2).keyed 2, by decide +kernel, by decide +kernel, by decide +kernel, by decide +kernel,
      by decide +kernel⟩

/-- Insertions on a store that has room for them. -/
theorem StoreShows.inserts {calls : List (TableId × RowCall)}
    (hinsert : ∀ c ∈ calls, ∃ record, c.2 = .insert record allocOk) {k : Nat} :
    ∀ {s : TableStore} {L : TableId → OTable Bytes}, StoreShows s L → s.HasRoom (calls.length + k) →
      OpsOk specStep CallFits L calls → StoreShows (runOps TableStore.call s calls).2 (runOps specStep L calls).2 ∧
        (runOps TableStore.call s calls).2.HasRoom k := by
  induction calls with
  | nil =>
    intro s L hstore hroom _
    exact ⟨hstore, by rwa [List.length_nil, Nat.zero_add] at hroom⟩
  | cons c calls ih =>
    intro s L hstore hroom hfits
    rw [List.length_cons, Nat.add_right_comm] at hroom
    obtain ⟨id, c⟩ := c
    have hready : s.Ready L := ⟨hstore, hroom.mono (Nat.le_add_left 1 _)⟩
    obtain ⟨record, hrecord⟩ := hinsert _ List.mem_cons_self
    obtain ⟨s', hcall, hserved⟩ := hready.call hfits.1 (fun key record' heq => by
      rw [show c = .insert record allocOk from hrecord] at heq
      cases heq)
    have hrest := ih (fun c hc => hinsert c (List.mem_cons_of_mem _ hc)) hserved.shows (hroom.grew hserved.toGrew)
      hfits.2
    rw [runOps, runOps, hcall]
    exact hrest

theorem smallStore_holds : StoreShows smallStore smallRows ∧ smallStore.HasRoom 1000 := by
  have hcreate := historyHolds_create (by decide : 0 < 4) (by decide) fiveFds_injective
  have hinsert : ∀ c ∈ smallCalls, ∃ record, c.2 = .insert record allocOk := by
    intro c hc
    simp only [smallCalls, List.mem_cons, List.not_mem_nil, or_false] at hc
    rcases hc with rfl | rfl | rfl <;> exact ⟨_, rfl⟩
  exact StoreShows.inserts hinsert ⟨fun _ => ⟨∅, (@btreeCreate_inv BTREE_DEFAULT_ORDER (by decide)).saved⟩, [], _, by decide,
      hcreate, fun _ _ => rfl, fun _ => rfl⟩
    ⟨fun _ => show 1 + (3 + 1000) < 2 ^ 32 by decide, show 1 + (3 + 1000) < 2 ^ 64 by decide⟩ smallCalls_fit

/-- Two calls for the same seat; the second waits for the first. -/
def smallRun : List StoredAction :=
  .start 0 (.book 7 1 [2, 1]) :: List.replicate 9 (.run 0 0 true) ++ .start 1 (.book 8 1 [1]) ::
    List.replicate 3 (.run 1 0 true) ++ List.replicate 12 (.run 0 0 true) ++ List.replicate 6 (.run 1 0 true)

/-- The call has returned this. -/
def World.hasReturned (w : World) (i : Nat) (c : Call) (rc : EtpResult) (out : Option Nat) : Bool :=
  match w.procs i with
  | .done c' rc' out' => c' == c && rc' == rc && out' == out
  | _ => false

theorem StoredWorld.Shows.done {w' : StoredWorld} {w : World} (hw : w'.Shows w) {i : Nat} {c : Call}
    {rc : EtpResult} {out : Option Nat} (h : w.hasReturned i c rc out = true) : w'.procs i = .done c rc out := by
  have hproc := hw.procs i
  unfold World.hasReturned at h
  generalize w'.procs i = p' at hproc ⊢
  generalize w.procs i = p at hproc h
  cases hproc with
  | idle => cases h
  | running _ _ _ => cases h
  | done c' rc' out' =>
    simp only [Bool.and_eq_true, beq_iff_eq] at h
    rw [h.1.1, h.1.2, h.2]

/-- The run on disk ends where the run over ordered tables does. -/
theorem smallRun_follows {check : World → Bool}
    (h : (runSteps step World.isOrderly (World.init smallStoreDb) (smallRun.map StoredAction.typed)).any check =
      true) : ∃ w' w,
        Reachable StoredWorld.step (fun v a => v.Orderly a ∧ a ∈ smallRun) (StoredWorld.init smallStore) w' ∧
        w'.Shows w ∧ runSteps step World.isOrderly (World.init smallStoreDb) (smallRun.map StoredAction.typed) =
          some w ∧ check w = true := by
  obtain ⟨w, hrun, hcheck⟩ := (Option.any_eq_true _ _).mp h
  have hfits : ∀ a ∈ smallRun, a.Fits := by
    intro a ha
    simp only [smallRun, List.mem_append, List.mem_cons, List.mem_replicate] at ha
    rcases ha with ((((rfl | ⟨-, rfl⟩) | rfl | ⟨-, rfl⟩) | ⟨-, rfl⟩) | ⟨-, rfl⟩) <;>
      simp [StoredAction.Fits, Call.Fits, Call.userId, Call.eventId, Call.bookingId, Call.seatIds]
  have hlength : smallRun.length ≤ 1000 := by decide +kernel
  have hroom := StoredWorld.init_room (smallStore_holds.2.mono hlength)
  obtain ⟨w', hreach, hw⟩ :=
    stored_engine_follows (storedWorld_init smallStore_holds.1 smallRows_shows) hfits hroom hrun
  exact ⟨w', w, hreach, hw, hrun, hcheck⟩

/-- One of the calls gets the seat, the other is told that it is gone. -/
theorem stored_engine_simulates_small : ∃ w' : StoredWorld, w'.procs 0 = .done (.book 7 1 [2, 1]) .ok (some 1) ∧
    w'.procs 1 = .done (.book 8 1 [1]) .errSeatUnavail none ∧
    ∃ w, Reachable step (fun _ a => a ∈ Set.range StoredAction.typed) (World.init smallStoreDb) w ∧
      w'.Shows w ∧ ∀ a, w'.Room a → Option.Rel StoredWorld.Shows (w'.step a) (step w a.typed) := by
  have hcheck : (runSteps step World.isOrderly (World.init smallStoreDb) (smallRun.map StoredAction.typed)).any
      (fun w => w.hasReturned 0 (.book 7 1 [2, 1]) .ok (some 1) &&
        w.hasReturned 1 (.book 8 1 [1]) .errSeatUnavail none) = true := by
    decide +kernel
  obtain ⟨w', w, hreach, hw, -, hreturned⟩ := smallRun_follows hcheck
  rw [Bool.and_eq_true] at hreturned
  exact ⟨w', hw.done hreturned.1, hw.done hreturned.2,
    stored_engine_simulates smallStore_holds.1 smallRows_shows
      (hreach.mono fun _ _ h => h.1.1)⟩

end SmallStore

end Ticketing
