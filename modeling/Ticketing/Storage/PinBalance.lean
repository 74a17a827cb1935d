import Ticketing.Storage.MalformedFiles
import Ticketing.Storage.PoolEviction
import Ticketing.Storage.TableLayer

/-!
# Pins are balanced

Whatever fails in a call of the table layer, it leaves every frame as often pinned as it found it.

* `PinsAre` — the pins of every frame; `PinsKept` — a program that keeps them, and takes every fetch in a
  state with these pins.
* `visitPage_pins` — a visit; from it one lemma for each function.
* `SharedCall`, `sharedStep` — calls on tables that share a pool, with input and output ending in any way.
* `pins_balanced` — every call of every run.
* `overflowed_pin_left` — in a pool whose map is too small a page keeps its pin.

A call that accesses a page or an array beyond its end has no behaviour of its own, and is not a step.
-/

set_option autoImplicit false

namespace Ticketing

open Bytes BufferPool

/-! ## Pins -/

/-- Frame `i` is pinned `pins i` times. -/
structure PinsAre (n : Nat) (pins : Nat → Nat) (s : TableEnv) : Prop where
  kept : PoolKept n s.pool
  pins : ∀ i < n, (s.pool.frames i).pinCount = pins i

/-- If the step is a fetch, the frames have these pins. -/
def FetchPins (n : Nat) (pins : Nat → Nat) (l : LayerStep) (s : TableEnv) : Prop :=
  ∀ pageId, l = .fetch pageId → PinsAre n pins s

/-- The program fetches only in states with these pins, and ends in one. -/
def PinsKept (n : Nat) (pins : Nat → Nat) {α : Type} (p : TableProg α) : Prop :=
  Prog.Along (PinsAre n pins) p (FetchPins n pins) fun _ => PinsAre n pins

section Pins

variable {n : Nat} {table : Table} {pins : Nat → Nat} {α β : Type}

theorem PinsKept.pure (a : α) : PinsKept n pins (pure a) := Prog.Along.pure fun _ hs => hs

theorem PinsKept.bind {p : TableProg α} {f : α → TableProg β} (hp : PinsKept n pins p)
    (hf : ∀ a, PinsKept n pins (f a)) : PinsKept n pins (p >>= f) := Prog.Along.bind hp hf

theorem Beside.fetchPins {p : TableProg α} (hp : Beside p) (s : TableEnv) :
    ∀ m ∈ p.moments s, FetchPins n pins m.1 m.2 :=
  fun m hm pageId hl => absurd hl (hp.unfetched s pageId m hm)

theorem PinsKept.beside {p : TableProg α} (hp : Beside p) : PinsKept n pins p := by
  refine Prog.Along.steps (fun s _ => hp.fetchPins s) fun s a s' hs hrun => ?_
  have hpool := (hp.unchanged hrun).1
  exact ⟨by rw [hpool]; exact hs.kept, fun i hi => by rw [hpool]; exact hs.pins i hi⟩

theorem PinsKept.reads (f : TableEnv → α) : PinsKept n pins (Prog.reads f) :=
  Prog.Along.quiet (fun _ => rfl) (Prog.Ensures.reads fun _ hs => hs)

theorem PinsKept.alloc : PinsKept n pins (allocPage table) :=
  Prog.Along.act (fun _ _ _ hl => by cases hl) fun _ hs => ⟨hs.kept, hs.pins⟩

theorem PinsKept.fold {f : β → α → TableProg β} {xs : List α} (hf : ∀ b x, PinsKept n pins (f b x)) :
    ∀ b, PinsKept n pins (Prog.fold f b xs) :=
  Prog.Along.fold fun x _ b => hf b x

end Pins

/-! ## A visit -/

/-- The state in a visit: the page is in frame `i`, which has one more pin. -/
structure Visiting (n : Nat) (pins : Nat → Nat) (k : PageKey) (i : Nat) (s : TableEnv) : Prop where
  kept : PoolKept n s.pool
  inUse : s.pool.InUse n i
  key : (s.pool.frames i).key = k
  pins : ∀ j < n, (s.pool.frames j).pinCount = pins j + if j = i then 1 else 0

section Visit

variable {n : Nat} {table : Table} {pins : Nat → Nat} {α : Type}

/-- What `_find_victim` leaves has the pins of before. -/
theorem Freed.pinCount {pool : BufferPool} {files : DataFiles} {io : IoResult} {i : Nat} {pool' : BufferPool}
    {files' : DataFiles} (h : Freed n pool files io i pool' files') (j : Nat) :
    (pool'.frames j).pinCount = (pool.frames j).pinCount := by
  cases h with
  | free _ _ => rfl
  | evicted _ _ _ _ =>
    rcases eq_or_ne j i with rfl | hne
    · simp [BufferPool.evict, BufferPool.setFrame]
    · rw [evict_frames_ne hne]

/-- The frame that is freed is not pinned. -/
theorem Freed.unpinned {pool : BufferPool} {files : DataFiles} {io : IoResult} {i : Nat}
    {pool' : BufferPool} {files' : DataFiles} (h : Freed n pool files io i pool' files')
    (hkept : PoolKept n pool) : (pool.frames i).pinCount = 0 := by
  cases h with
  | free hi hfree => exact hkept.unpinned i hi hfree
  | evicted _ hpin _ _ => exact hpin

/-- A fetch pins the frame it returns, and no other. -/
theorem fetchPage_pins (hn : 0 < n) (hn' : n < 2 ^ 30) (hpins : ∀ i < n, pins i + 1 < 2 ^ 32)
    (pageId : Nat) :
    Prog.Ensures (PinsAre n pins) (fetchPage table pageId) fun r s =>
      r.elim (PinsAre n pins s) fun i => Visiting n pins ⟨table.dataFd, pageId⟩ i s := by
  refine Prog.Ensures.act fun s hs => ?_
  have hkept := hs.kept.fetch hn hn' s.files ⟨table.dataFd, pageId⟩ s.io
  have hends := hs.kept.shape.fetchEnds hn hn' s.files ⟨table.dataFd, pageId⟩ s.io
  simp only
  generalize bufferPoolFetch s.pool s.files ⟨table.dataFd, pageId⟩ s.io = r at hkept hends ⊢
  cases hends with
  | hit i hi hkey =>
    have hmod : ((s.pool.frames i).pinCount + 1) % 2 ^ 32 = pins i + 1 := by
      rw [hs.pins i hi.1]
      exact Nat.mod_eq_of_lt (hpins i hi.1)
    refine ⟨hkept, ⟨hi.1, ?_⟩, ?_, fun j hj => ?_⟩
    · simp only [lruTouch, lruRemove, lruPushFront, setFrame_self]
      exact hi.2
    · simp only [lruTouch, lruRemove, lruPushFront, setFrame_self]
      exact hkey
    · simp only [lruTouch, lruRemove, lruPushFront]
      rcases eq_or_ne j i with rfl | hne
      · rw [setFrame_self, if_pos rfl]
        exact hmod
      · rw [show (s.pool.setFrame i _).frames j = s.pool.frames j from Function.update_of_ne hne _ _,
          if_neg hne]
        exact hs.pins j hj
  | pinned _ _ => exact ⟨hs.kept, hs.pins⟩
  | unread _ hfreed _ => exact ⟨hkept, fun j hj => by rw [hfreed.pinCount j]; exact hs.pins j hj⟩
  | @loaded i pool' files' hnew hfreed hread =>
    have hi := (hs.kept.freed hn hn' hfreed).2.1
    refine ⟨hkept, ⟨hi, ?_⟩, ?_, fun j hj => ?_⟩
    · simp only [lruPushFront, mapInsert, setFrame_self]
    · simp only [lruPushFront, mapInsert, setFrame_self]
    · simp only [lruPushFront, mapInsert]
      rcases eq_or_ne j i with rfl | hne
      · rw [setFrame_self, if_pos rfl, ← hs.pins j hj, hfreed.unpinned hs.kept]
      · rw [show (pool'.setFrame i _).frames j = pool'.frames j from Function.update_of_ne hne _ _,
          if_neg hne, hfreed.pinCount j]
        exact hs.pins j hj

/-- In a visit a frame changes neither its page nor its pins. -/
theorem Visiting.setFrame {k : PageKey} {i : Nat} {s : TableEnv} (h : Visiting n pins k i s) {j : Nat}
    {f : Frame} (hkey : f.key = (s.pool.frames j).key) (hvalid : f.valid = (s.pool.frames j).valid)
    (hpin : f.pinCount = (s.pool.frames j).pinCount) :
    Visiting n pins k i { s with pool := s.pool.setFrame j f } := by
  have hframe : ∀ m, ((s.pool.setFrame j f).frames m).key = (s.pool.frames m).key ∧
      ((s.pool.setFrame j f).frames m).valid = (s.pool.frames m).valid ∧
      ((s.pool.setFrame j f).frames m).pinCount = (s.pool.frames m).pinCount := by
    intro m
    rcases eq_or_ne m j with rfl | hne
    · rw [setFrame_self]
      exact ⟨hkey, hvalid, hpin⟩
    · rw [show (s.pool.setFrame j f).frames m = s.pool.frames m from Function.update_of_ne hne _ _]
      exact ⟨rfl, rfl, rfl⟩
  refine ⟨h.kept.setFrame hkey hvalid fun _ => hpin, ⟨h.inUse.1, ?_⟩, (hframe i).1.trans h.key, fun m hm => ?_⟩
  · exact (hframe i).2.1.trans h.inUse.2
  · exact (hframe m).2.2.trans (h.pins m hm)

/-- The unpin at the end takes the pin of the fetch back. -/
theorem Visiting.unpin {k : PageKey} {i : Nat} {s : TableEnv} (h : Visiting n pins k i s) (hn : 0 < n)
    (hn' : n < 2 ^ 30) : PinsAre n pins { s with pool := bufferPoolUnpin s.pool k } := by
  refine ⟨h.kept.unpin hn hn' k, fun j hj => ?_⟩
  have hfind := (h.kept.shape.frameOf_eq_some hn hn').mpr ⟨h.inUse, h.key⟩
  have hpin := h.pins i h.inUse.1
  rw [if_pos rfl] at hpin
  simp only [bufferPoolUnpin, hfind]
  rw [if_neg (by omega)]
  rcases eq_or_ne j i with rfl | hne
  · rw [setFrame_self]
    simp only [hpin, Nat.add_sub_cancel]
  · rw [show (s.pool.setFrame i _).frames j = s.pool.frames j from Function.update_of_ne hne _ _,
      h.pins j hj, if_neg hne, Nat.add_zero]

/-- **A visit** whose body is beside the pool. -/
theorem visitPage_pins (hn : 0 < n) (hn' : n < 2 ^ 30) (hpins : ∀ i < n, pins i + 1 < 2 ^ 32)
    {pageId : Nat} {fail : α} {body : Bytes → TableProg (α × Option Bytes)}
    (hbody : ∀ page, Beside (body page)) : PinsKept n pins (visitPage table pageId fail body) := by
  have hfetch : Prog.Along (PinsAre n pins) (fetchPage table pageId) (FetchPins n pins) fun r s =>
      r.elim (PinsAre n pins s) fun i => Visiting n pins ⟨table.dataFd, pageId⟩ i s :=
    Prog.Along.steps (fun s hs m hm _ _ => List.mem_singleton.mp hm ▸ hs)
      (fetchPage_pins hn hn' hpins pageId)
  refine Prog.Along.bind hfetch fun r => ?_
  cases r with
  | none => exact Prog.Along.pure fun _ hs => hs
  | some i =>
    have hread : Prog.Along (Visiting n pins ⟨table.dataFd, pageId⟩ i) (pageAt i) (FetchPins n pins)
        fun _ => Visiting n pins ⟨table.dataFd, pageId⟩ i :=
      Prog.Along.quiet (fun _ => rfl) (Prog.Ensures.reads fun _ hs => hs)
    refine Prog.Along.bind hread fun page => ?_
    have hlook : Prog.Along (Visiting n pins ⟨table.dataFd, pageId⟩ i) (body page) (FetchPins n pins)
        fun _ => Visiting n pins ⟨table.dataFd, pageId⟩ i :=
      Prog.Along.steps (fun s _ => (hbody page).fetchPins s) fun s r s' hs hrun => by
        have hpool := ((hbody page).unchanged hrun).1
        exact ⟨by rw [hpool]; exact hs.kept, by rw [hpool]; exact hs.inUse, by rw [hpool]; exact hs.key,
          fun j hj => by rw [hpool]; exact hs.pins j hj⟩
    refine Prog.Along.bind hlook fun r => ?_
    have hwrite : Prog.Along (Visiting n pins ⟨table.dataFd, pageId⟩ i) (writePage table pageId i r.2)
        (FetchPins n pins) fun _ => Visiting n pins ⟨table.dataFd, pageId⟩ i := by
      cases r.2 with
      | none => exact Prog.Along.pure fun _ hs => hs
      | some page' =>
        refine Prog.Along.bind (R := fun _ => Visiting n pins ⟨table.dataFd, pageId⟩ i)
          (Prog.Along.act (fun _ _ _ hl => by cases hl) fun s hs => hs.setFrame rfl rfl rfl) fun _ => ?_
        refine Prog.Along.act (fun _ _ _ hl => by cases hl) fun s hs => ?_
        simp only [bufferPoolMarkDirty]
        split
        · exact hs
        · exact hs.setFrame rfl rfl rfl
    refine Prog.Along.bind hwrite fun _ => ?_
    refine Prog.Along.bind (R := fun _ => PinsAre n pins)
      (Prog.Along.act (fun _ _ _ hl => by cases hl) fun s hs => hs.unpin hn hn') fun _ => ?_
    exact Prog.Along.pure fun _ hs => hs

end Visit

/-! ## The functions -/

section Functions

variable {n : Nat} {table : Table} {pins : Nat → Nat}

theorem indexRecord_pins (alloc : Nat → Bool) (newId pageId slot : Nat) :
    PinsKept n pins (indexRecord alloc newId pageId slot) := by
  have hinsert : Beside (indexInsert alloc newId ⟨pageId, slot % 2 ^ 16⟩) :=
    Beside.index fun _ => Beside.bind (Beside.lift _) fun _ => Beside.bind (Beside.setIndex _) fun _ => Beside.pure _
  exact PinsKept.beside (hinsert.bind fun _ => Beside.pure _)

variable (hn : 0 < n) (hn' : n < 2 ^ 30) (hpins : ∀ i < n, pins i + 1 < 2 ^ 32)
include hn hn' hpins

theorem placeRecord_pins (record : Memory) (pageId : Nat) :
    PinsKept n pins (placeRecord table record pageId) :=
  visitPage_pins hn hn' hpins fun _ => Beside.pure _

/-- The target page: its visit may find it full, and a new page may not be allocated. -/
theorem targetPage_pins : PinsKept n pins (targetPage table) := by
  refine (PinsKept.reads _).bind fun pages => PinsKept.bind ?_ fun last => ?_
  · unfold lastPage
    split
    · exact visitPage_pins hn hn' hpins fun _ => Beside.pure _
    · exact PinsKept.pure _
  · split
    · exact PinsKept.alloc
    · exact PinsKept.pure _

theorem insertFallback_pins (alloc : Nat → Bool) (newId : Nat) (record : Memory) :
    PinsKept n pins (insertFallback table alloc newId record) := by
  refine PinsKept.alloc.bind fun target => ?_
  split
  · exact PinsKept.pure _
  · refine (placeRecord_pins hn hn' hpins record target).bind fun r => ?_
    rcases r with _ | _ | slot
    · exact PinsKept.pure _
    · exact PinsKept.pure _
    · exact indexRecord_pins alloc newId target slot

/-- **`table_insert`**: it may end before the log, at the log, at the page or at the index. -/
theorem tableInsertUnlocked_pins (alloc : Nat → Bool) (record : Memory) :
    PinsKept n pins (tableInsertUnlocked table alloc record) := by
  have hnext : Beside (etpNextId table) := .act (fun _ => nofun) fun _ _ _ => rfl
  refine (PinsKept.beside hnext).bind fun newId =>
    (targetPage_pins hn hn' hpins).bind fun target => ?_
  split
  · exact PinsKept.pure _
  · refine (PinsKept.beside (Beside.walCall _)).bind fun lsn => ?_
    split
    · exact PinsKept.pure _
    · refine (placeRecord_pins hn hn' hpins _ target).bind fun r => ?_
      rcases r with _ | _ | slot
      · exact PinsKept.pure _
      · exact (insertFallback_pins hn hn' hpins alloc newId _).bind fun _ => PinsKept.pure _
      · exact (indexRecord_pins alloc newId target slot).bind fun _ => PinsKept.pure _

/-- **The common part of a lookup, an update and a deletion**: the record may be missing from the index,
from its page, or deleted. -/
theorem visitRecord_pins {α : Type} {key : Nat}
    {body : RecordPtr → Bytes → Nat → TableProg (Except EtpResult α × Option Bytes)}
    (hbody : ∀ ptr page off, Beside (body ptr page off)) :
    PinsKept n pins (visitRecord table key body) := by
  have hsearch : Beside (indexSearch key) :=
    Beside.index fun _ => Beside.bind (Beside.lift _) fun _ => Beside.pure _
  refine (PinsKept.beside hsearch).bind fun r => ?_
  cases r with
  | none => exact PinsKept.pure _
  | some ptr =>
    refine visitPage_pins hn hn' hpins fun page => ?_
    cases pageGetRecord page ptr.slotId with
    | none => exact Beside.pure _
    | some off =>
      refine Beside.bind (Beside.lift _) fun _ => ?_
      split
      · exact Beside.pure _
      · exact hbody ptr page off

theorem tableFindByIdUnlocked_pins (key : Nat) :
    PinsKept n pins (tableFindByIdUnlocked table key) :=
  visitRecord_pins hn hn' hpins fun _ _ _ => Beside.bind (Beside.lift _) fun _ => Beside.pure _

theorem tableUpdateUnlocked_pins (key : Nat) (record : Memory) :
    PinsKept n pins (tableUpdateUnlocked table key record) := by
  refine visitRecord_pins hn hn' hpins fun ptr page off =>
    Beside.bind (Beside.lift _) fun _ => Beside.bind (Beside.walCall _) fun lsn => ?_
  split
  · exact Beside.pure _
  · exact beside_updateInPage _ _ _ _

theorem tableDeleteUnlocked_pins (key : Nat) :
    PinsKept n pins (tableDeleteUnlocked table key) := by
  refine visitRecord_pins hn hn' hpins fun ptr page off =>
    Beside.bind (Beside.lift _) fun _ => Beside.bind (Beside.walCall _) fun lsn => ?_
  split
  · exact Beside.pure _
  · exact Beside.bind (beside_indexDelete key) fun _ => Beside.pure _

theorem tableScanUnlocked_pins (filter : Bytes → Bool) (max : Nat) :
    PinsKept n pins (tableScanUnlocked table filter max) := by
  refine (PinsKept.reads _).bind fun pages => PinsKept.fold (fun found pageId => ?_) []
  unfold scanPage
  split
  · exact PinsKept.pure _
  · exact visitPage_pins hn hn' hpins fun page =>
      Beside.bind (Beside.fold (fun b x => beside_scanSlot _ _ _ b x) _) fun _ => Beside.pure _

theorem tableCountUnlocked_pins : PinsKept n pins (tableCountUnlocked table) := by
  refine (PinsKept.reads _).bind fun pages => PinsKept.fold (fun count pageId => ?_) 0
  refine visitPage_pins hn hn' hpins fun page =>
    Beside.bind (Beside.fold (fun b x => ?_) _) fun _ => Beside.pure _
  unfold countSlot
  split
  · exact Beside.pure _
  · exact Beside.bind (Beside.lift _) fun _ => Beside.pure _

/-- **`table_open`**: it may give up at a record of the old format, or at the largest id. -/
theorem tableOpen_pins (alloc : Nat → Bool) (index : Bytes) :
    PinsKept n pins (tableOpen table alloc index) := by
  have hfree : Beside indexFree := Beside.index fun _ => Beside.lift _
  refine (PinsKept.beside (Beside.lift _)).bind fun r => ?_
  cases r with
  | none => exact PinsKept.pure _
  | some t =>
    refine (PinsKept.beside (Beside.setIndex t)).bind fun _ => (PinsKept.reads _).bind fun pages =>
      (PinsKept.fold (fun maxId pageId => ?_) (some 0)).bind fun maxId => ?_
    · cases maxId with
      | none => exact PinsKept.pure _
      | some m =>
        exact visitPage_pins hn hn' hpins fun page =>
          Beside.bind (Beside.fold (fun b x => beside_openSlot page b x) _) fun _ => Beside.pure _
    · cases maxId with
      | none => exact (PinsKept.beside hfree).bind fun _ => PinsKept.pure _
      | some m =>
        have hset : Beside (etpSetNextId table (m + 1)) := .act (fun _ => nofun) fun _ _ _ => rfl
        simp only
        split
        · exact (PinsKept.beside hfree).bind fun _ => PinsKept.pure _
        · exact (PinsKept.beside hset).bind fun _ => PinsKept.pure _

end Functions

/-! ## Runs -/

/-- A call on a table that may have to be opened. -/
inductive SharedCall where
  | open (alloc : Nat → Bool) (index : Bytes)
  | row (c : RowCall)

/-- The call, without what it returns. -/
def SharedCall.prog (table : Table) : SharedCall → TableProg Unit
  | .open alloc index => do
    let _ ← tableOpen table alloc index
    pure ()
  | .row c => do
    let _ ← c.prog table
    pure ()

/-- A call on one of the tables, and how its input and output ends. -/
structure SharedAct where
  id : TableId
  call : SharedCall
  io : IoScript

/-- What the call works on. -/
def SharedAct.env (a : SharedAct) (s : TableStore) : TableEnv := { s.env a.id with io := a.io }

/-- The call as a program. -/
def SharedAct.prog (a : SharedAct) (s : TableStore) : TableProg Unit := a.call.prog ⟨a.id, s.fd a.id⟩

/-- The store after the call; there is none if it accesses memory out of bounds. -/
def sharedStep (s : TableStore) (a : SharedAct) : Option TableStore :=
  match a.prog s (a.env s) with
  | .ok (_, e) => some (s.put a.id e)
  | .error _ => none

theorem SharedCall.pinsKept {n : Nat} {table : Table} {pins : Nat → Nat} (hn : 0 < n) (hn' : n < 2 ^ 30)
    (hpins : ∀ i < n, pins i + 1 < 2 ^ 32) (c : SharedCall) : PinsKept n pins (c.prog table) := by
  cases c with
  | «open» alloc index => exact (tableOpen_pins hn hn' hpins alloc index).bind fun _ => PinsKept.pure _
  | row c =>
    refine PinsKept.bind ?_ fun _ => PinsKept.pure _
    cases c with
    | insert record alloc => exact (tableInsertUnlocked_pins hn hn' hpins alloc record).bind fun _ => PinsKept.pure _
    | find key => exact (tableFindByIdUnlocked_pins hn hn' hpins key).bind fun _ => PinsKept.pure _
    | update key record => exact (tableUpdateUnlocked_pins hn hn' hpins key record).bind fun _ => PinsKept.pure _
    | delete key => exact (tableDeleteUnlocked_pins hn hn' hpins key).bind fun _ => PinsKept.pure _
    | scan filter max => exact (tableScanUnlocked_pins hn hn' hpins filter max).bind fun _ => PinsKept.pure _
    | count => exact (tableCountUnlocked_pins hn hn' hpins).bind fun _ => PinsKept.pure _

/-- The pins of the frames of a store. -/
def TableStore.PinsAre (n : Nat) (pins : Nat → Nat) (s : TableStore) : Prop :=
  PoolKept n s.pool ∧ ∀ i < n, (s.pool.frames i).pinCount = pins i

/-- **One call.** -/
theorem sharedStep_pins {n : Nat} {pins : Nat → Nat} (hn : 0 < n) (hn' : n < 2 ^ 30)
    (hpins : ∀ i < n, pins i + 1 < 2 ^ 32) {s s' : TableStore} (a : SharedAct) (h : s.PinsAre n pins)
    (hs : sharedStep s a = some s') : s'.PinsAre n pins := by
  have hkept : PinsKept n pins (a.prog s) := a.call.pinsKept hn hn' hpins
  obtain ⟨-, hend⟩ := hkept (a.env s) ⟨h.1, h.2⟩
  cases hrun : a.prog s (a.env s) with
  | error e =>
    simp only [sharedStep, hrun] at hs
    cases hs
  | ok r =>
    obtain ⟨u, e⟩ := r
    simp only [sharedStep, hrun, Option.some.injEq] at hs
    subst hs
    obtain ⟨hkept, hpin⟩ := hend u e hrun
    exact ⟨hkept, hpin⟩

/-- With no frame pinned a fetch fails only if the page cannot be read. -/
theorem PinsAre.fetch {n : Nat} {s : TableEnv} (h : PinsAre n (fun _ => 0) s) (hn : 0 < n)
    (hn' : n < 2 ^ 30) {k : PageKey} (hnone : (bufferPoolFetch s.pool s.files k s.io).2.2 = none) :
    s.io 1 ≠ .ok := by
  have hends := h.kept.shape.fetchEnds hn hn' s.files k s.io
  generalize bufferPoolFetch s.pool s.files k s.io = r at hends hnone
  cases hends with
  | hit i _ _ => cases hnone
  | pinned _ hall => exact absurd (h.pins 0 hn) (hall 0 hn).2
  | unread _ _ hread => exact hread
  | loaded _ _ _ => cases hnone

/-- **Pins are balanced**, in a pool of fewer than `2 ^ 30` frames.  Tables share the pool that any calls
of it have left, with no frame pinned `2 ^ 32 - 1` times.  In every run of calls that stay inside pages and
nodes, whatever input, output, allocation and index fail, every call leaves every frame pinned as often as
it was; and if no frame was pinned at first, then none is at any fetch of a call, so that each fetch fails
only if its page cannot be read. -/
theorem pins_balanced {n : Nat} (hn : 0 < n) (hn' : n < 2 ^ 30) (files : DataFiles)
    (before : List PoolCall) {s₀ : TableStore}
    (hpool : s₀.pool = (before.foldl PoolCall.run (bufferPoolCreate n, files)).1)
    (hpins : ∀ i < n, (s₀.pool.frames i).pinCount + 1 < 2 ^ 32) {s : TableStore}
    (h : Reachable sharedStep (fun _ _ => True) s₀ s) (a : SharedAct) :
    (∀ s', sharedStep s a = some s' →
      ∀ i < n, (s'.pool.frames i).pinCount = (s.pool.frames i).pinCount) ∧
    ((∀ i < n, (s₀.pool.frames i).pinCount = 0) → ∀ pageId e,
      (.fetch pageId, e) ∈ (a.prog s).moments (a.env s) →
        (∀ i < n, (e.pool.frames i).pinCount = 0) ∧
          ∀ k, (bufferPoolFetch e.pool e.files k e.io).2.2 = none → e.io 1 ≠ .ok) := by
  have hfirst : s₀.PinsAre n fun i => (s₀.pool.frames i).pinCount :=
    ⟨by rw [hpool]; exact (poolKept_create hn').runs hn hn' before, fun _ _ => rfl⟩
  have hreach : s.PinsAre n fun i => (s₀.pool.frames i).pinCount :=
    h.invariant hfirst fun _ a _ hi _ hs => sharedStep_pins hn hn' hpins a hi hs
  refine ⟨fun s' hs i hi => ?_, fun hzero pageId e he => ?_⟩
  · exact ((sharedStep_pins hn hn' hpins a hreach hs).2 i hi).trans (hreach.2 i hi).symm
  · have hnone : PinsAre n (fun _ => 0) (a.env s) :=
      ⟨hreach.1, fun i hi => (hreach.2 i hi).trans (hzero i hi)⟩
    have hkept : PinsKept n (fun _ => 0) (a.prog s) := a.call.pinsKept hn hn' fun _ _ => by decide
    have hpins := (hkept (a.env s) hnone).1 _ he pageId rfl
    exact ⟨hpins.pins, fun k => hpins.fetch hn hn'⟩

/-- `table_count` of a table. -/
def countAct (id : TableId) : SharedAct := ⟨id, .row .count, IoScript.ok⟩

/-- Counting the users of a new server pins nothing. -/
theorem pins_balanced_count : ∃ s', sharedStep (tablesCreate 64 fiveFds) (countAct .users) = some s' ∧
    (s'.pool.frames 0).pinCount = ((tablesCreate 64 fiveFds).pool.frames 0).pinCount :=
  ⟨_, rfl, (pins_balanced (n := 64) (by decide) (by decide) (fun _ => []) [] rfl
    (fun _ _ => Nat.one_lt_two_pow (by decide)) .refl (countAct .users)).1 _ rfl 0 (by decide)⟩

/-! ## A map that is too small -/

section Overflow

variable {n : Nat} {files : DataFiles}

/-- The pool after pages 0, 1, ... of file 3 have been visited, one after another. -/
def visitedPages (n : Nat) (files : DataFiles) : Nat → BufferPool
  | 0 => bufferPoolCreate n
  | m + 1 =>
    bufferPoolUnpin ((((visitedPages n files m).setFrame m
      ⟨files.page ⟨3, m⟩, ⟨3, m⟩, 1, false, true⟩).mapInsert ⟨3, m⟩ m).lruPushFront m) ⟨3, m⟩

theorem unpin_valid (pool : BufferPool) (k : PageKey) (i : Nat) :
    (bufferPoolUnpin pool k).numFrames = pool.numFrames ∧
      ((bufferPoolUnpin pool k).frames i).valid = (pool.frames i).valid := by
  unfold bufferPoolUnpin
  split
  · exact ⟨rfl, rfl⟩
  · simp only
    split
    · exact ⟨rfl, rfl⟩
    · rename_i j _ _
      refine ⟨rfl, ?_⟩
      rcases eq_or_ne i j with rfl | hne
      · rw [setFrame_self]
      · rw [show (pool.setFrame j _).frames i = pool.frames i from Function.update_of_ne hne _ _]

theorem visitedPages_frames (m : Nat) : (visitedPages n files m).numFrames = n ∧
    ∀ i, ((visitedPages n files m).frames i).valid = decide (i < m) := by
  induction m with
  | zero => exact ⟨rfl, fun _ => rfl⟩
  | succ m ih =>
    refine ⟨(unpin_valid _ _ 0).1.trans ih.1, fun i => (unpin_valid _ _ i).2.trans ?_⟩
    simp only [lruPushFront, mapInsert]
    rcases eq_or_ne i m with rfl | hne
    · rw [setFrame_self]
      simp
    · rw [show ((visitedPages n files m).setFrame m _).frames i = (visitedPages n files m).frames i from
        Function.update_of_ne hne _ _, ih.2 i]
      simp only [decide_eq_decide]
      omega

/-- An empty page is counted; the map does not find it beforehand. -/
theorem countPage_visited {table : Table} (hfd : table.dataFd = 3) {m : Nat} (hm : m < n)
    (hmiss : (visitedPages n files m).frameOf ⟨3, m⟩ = none)
    (hempty : pageGetRecordCount (files.page ⟨3, m⟩) = 0) (count : Nat) {s : TableEnv}
    (hpool : s.pool = visitedPages n files m) (hfiles : s.files = files) (hio : s.io = IoScript.ok) :
    countPage table count m s = .ok (count, { s with pool := visitedPages n files (m + 1) }) := by
  have hfirst : (List.range n).find? (fun i => !((visitedPages n files m).frames i).valid) = some m := by
    rw [List.find?_range_eq_some]
    simp only [(visitedPages_frames m).2]
    refine ⟨by simp, List.mem_range.mpr hm, fun j hj => by simp [hj]⟩
  have hvictim : (visitedPages n files m).findVictim files .ok =
      some (m, visitedPages n files m, files) := by
    rw [BufferPool.findVictim, (visitedPages_frames m).1, hfirst]
  obtain ⟨index, pool, files', wal, nextId, io⟩ := s
  obtain rfl : pool = visitedPages n files m := hpool
  obtain rfl : files' = files := hfiles
  obtain rfl : io = IoScript.ok := hio
  have hfetch : fetchPage table m ⟨index, visitedPages n files' m, files', wal, nextId, IoScript.ok⟩ =
      .ok (some m, ⟨index, (((visitedPages n files' m).setFrame m
        ⟨files'.page ⟨3, m⟩, ⟨3, m⟩, 1, false, true⟩).mapInsert ⟨3, m⟩ m).lruPushFront m, files', wal,
        nextId, IoScript.ok⟩) := by
    simp only [fetchPage, Prog.act, hfd, bufferPoolFetch, hmiss, IoScript.ok_apply, hvictim,
      IoScript.drop_ok]
  have hpage : ((((visitedPages n files' m).setFrame m
      ⟨files'.page ⟨3, m⟩, ⟨3, m⟩, 1, false, true⟩).mapInsert ⟨3, m⟩ m).lruPushFront m).frames m =
      ⟨files'.page ⟨3, m⟩, ⟨3, m⟩, 1, false, true⟩ := setFrame_self _ _ _
  simp only [countPage, visitPage, Bind.bind, hfetch, pageAt, Prog.reads, hpage, hempty, List.range_zero,
    Prog.fold, writePage, unpinPage, Prog.act, hfd, Pure.pure, visitedPages]

/-- Counting five such pages. -/
theorem tableCountUnlocked_visited {table : Table} (hfd : table.dataFd = 3) (hn : 5 ≤ n)
    (hpages : pageGetCount (files 3) = 5)
    (hmiss : ∀ m ≤ 4, (visitedPages n files m).frameOf ⟨3, m⟩ = none ∧
      pageGetRecordCount (files.page ⟨3, m⟩) = 0)
    {s : TableEnv} (hpool : s.pool = bufferPoolCreate n) (hfiles : s.files = files)
    (hio : s.io = IoScript.ok) :
    tableCountUnlocked table s = .ok (0, { s with pool := visitedPages n files 5 }) := by
  have hpage : ∀ m ≤ 4, countPage table 0 m { s with pool := visitedPages n files m } =
      .ok (0, { s with pool := visitedPages n files (m + 1) }) := fun m hm =>
    countPage_visited hfd (by omega) (hmiss m hm).1 (hmiss m hm).2 0 rfl hfiles hio
  have hcount : pageCount table s = .ok (5, s) := by
    rw [← hpages, ← hfiles, ← hfd]
    rfl
  have hstart : s = { s with pool := visitedPages n files 0 } := by
    rw [show visitedPages n files 0 = s.pool from hpool.symm]
  unfold tableCountUnlocked
  rw [Prog.bind_run hcount, show List.range 5 = [0, 1, 2, 3, 4] from rfl]
  conv_lhs => rw [hstart]
  rw [Prog.fold_run (hpage 0 (by omega)), Prog.fold_run (hpage 1 (by omega)),
    Prog.fold_run (hpage 2 (by omega)), Prog.fold_run (hpage 3 (by omega)),
    Prog.fold_run (hpage 4 (by omega))]
  rfl

theorem sharedStep_visited {s : TableStore} (hfd : s.fd .users = 3) (hn : 5 ≤ n)
    (hpages : pageGetCount (files 3) = 5)
    (hmiss : ∀ m ≤ 4, (visitedPages n files m).frameOf ⟨3, m⟩ = none ∧
      pageGetRecordCount (files.page ⟨3, m⟩) = 0)
    (hpool : s.pool = bufferPoolCreate n) (hfiles : s.files = files) :
    ∃ s', sharedStep s (countAct .users) = some s' ∧ s'.pool = visitedPages n files 5 := by
  have hcount : tableCountUnlocked ⟨.users, s.fd .users⟩ ((countAct .users).env s) =
      .ok (0, { (countAct .users).env s with pool := visitedPages n files 5 }) :=
    tableCountUnlocked_visited hfd hn hpages hmiss hpool hfiles rfl
  generalize visitedPages n files 5 = pool' at hcount ⊢
  have hrow : ∀ {e e' : TableEnv} {c : Nat}, tableCountUnlocked ⟨.users, s.fd .users⟩ e = .ok (c, e') →
      (countAct .users).prog s e = .ok ((), e') := fun hrun => Prog.bind_run (Prog.bind_run hrun)
  refine ⟨s.put .users { (countAct .users).env s with pool := pool' }, ?_, rfl⟩
  rw [sharedStep, hrow hcount]
  rfl

end Overflow

/-- A server with a pool of `2 ^ 30 + 1` frames whose files have five empty pages. -/
def overflowedStore : TableStore := { tablesCreate (2 ^ 30 + 1) (fun _ => 3) with files := fivePages }

theorem overflowed_visits : ∀ m ≤ 4, (visitedPages (2 ^ 30 + 1) fivePages m).frameOf ⟨3, m⟩ = none ∧
    pageGetRecordCount (fivePages.page ⟨3, m⟩) = 0 := by
  decide +kernel

/-- **In a pool of `2 ^ 30 + 1` frames** the fifth page that a call visits is not in the map when it is to
be unpinned: `table_count` leaves its frame with a pin that nobody can take back. -/
theorem overflowed_pin_left : ∃ s', sharedStep overflowedStore (countAct .users) = some s' ∧
    (overflowedStore.pool.frames 4).pinCount = 0 ∧ (s'.pool.frames 4).pinCount = 1 := by
  have hpages : pageGetCount (fivePages 3) = 5 := by
    rw [fivePages, pageGetCount, List.length_replicate]
    decide
  obtain ⟨s', hs', hpool⟩ := sharedStep_visited (s := overflowedStore) rfl
    (show 5 ≤ 2 ^ 30 + 1 by omega) hpages overflowed_visits rfl rfl
  have hpin : ((visitedPages (2 ^ 30 + 1) fivePages 5).frames 4).pinCount = 1 := by decide +kernel
  exact ⟨s', hs', rfl, by rw [hpool]; exact hpin⟩

end Ticketing
