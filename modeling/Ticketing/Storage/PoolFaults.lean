import Mathlib.Data.Set.Function
import Ticketing.Storage.BufferPoolCache

/-!
# The buffer pool under failing reads and writes

Calls of the pool whose page reads and writes end in any way, torn writes included.

* `Freed`, `FetchEnds` — what `_find_victim` and `buffer_pool_fetch` can do, said once.
* `PoolCall`, `PoolCall.run` — the calls, and stores through a pointer that a fetch returned.
* `PoolKept` — the shape of the pool, and no pin on a free frame; one lemma for each call.
* `pool_consistent` — map, frames and list agree after every run.
-/

set_option autoImplicit false

namespace Ticketing

open BufferPool

/-! ## What a fetch can do -/

/-- `_find_victim` finds frame `i`, and what it leaves: a free frame is taken as it is, and only when
there is none the unpinned one nearest to the tail of the list is freed. -/
inductive Freed (n : Nat) (pool : BufferPool) (files : DataFiles) (io : IoResult) (i : Nat) :
    BufferPool → DataFiles → Prop where
  | free (hi : i < n) (hfree : (pool.frames i).valid = false) : Freed n pool files io i pool files
  | evicted (hi : pool.InUse n i) (hpin : (pool.frames i).pinCount = 0)
      (hall : ∀ j < n, (pool.frames j).valid = true)
      (hback : ∀ xs, pool.lru.Represents xs → (∀ j, j ∈ xs ↔ pool.InUse n j) →
        xs.reverse.find? (fun j => (pool.frames j).pinCount == 0) = some i) :
      Freed n pool files io i (pool.evict files i io).1 (pool.evict files i io).2

/-- How `buffer_pool_fetch` ends. -/
inductive FetchEnds (n : Nat) (pool : BufferPool) (files : DataFiles) (k : PageKey) (io : IoScript) :
    BufferPool × DataFiles × Option Nat → Prop where
  | hit (i : Nat) (hi : pool.InUse n i) (hkey : (pool.frames i).key = k) :
      FetchEnds n pool files k io
        ((pool.setFrame i
          { pool.frames i with pinCount := ((pool.frames i).pinCount + 1) % 2 ^ 32 }).lruTouch i,
          files, some i)
  | pinned (hnew : ∀ j, pool.InUse n j → (pool.frames j).key ≠ k)
      (hall : ∀ j < n, (pool.frames j).valid = true ∧ (pool.frames j).pinCount ≠ 0) :
      FetchEnds n pool files k io (pool, files, none)
  | unread {i : Nat} {pool' : BufferPool} {files' : DataFiles}
      (hnew : ∀ j, pool.InUse n j → (pool.frames j).key ≠ k)
      (hfreed : Freed n pool files (io 0) i pool' files') (hread : io 1 ≠ .ok) :
      FetchEnds n pool files k io (pool', files', none)
  | loaded {i : Nat} {pool' : BufferPool} {files' : DataFiles}
      (hnew : ∀ j, pool.InUse n j → (pool.frames j).key ≠ k)
      (hfreed : Freed n pool files (io 0) i pool' files') (hread : io 1 = .ok) :
      FetchEnds n pool files k io
        (((pool'.setFrame i ⟨files'.page k, k, 1, false, true⟩).mapInsert k i).lruPushFront i,
          files', some i)

section Fetch

variable {n : Nat} {pool : BufferPool}

/-- The list has no more frames than there are. -/
theorem length_le_numFrames {xs : List Nat} (hnd : xs.Nodup) (hmem : ∀ i, i ∈ xs ↔ pool.InUse n i) :
    xs.length ≤ n := by
  have hsub : xs ⊆ List.range n := fun i hi => List.mem_range.mpr ((hmem i).mp hi).1
  have hcard := (List.subperm_of_subset hnd hsub).length_le
  rwa [List.length_range] at hcard

theorem PoolShape.freed (h : PoolShape n pool) {files : DataFiles} {io : IoResult} {i : Nat}
    {pool' : BufferPool} {files' : DataFiles}
    (hv : pool.findVictim files io = some (i, pool', files')) : Freed n pool files io i pool' files' := by
  unfold BufferPool.findVictim at hv
  rw [h.numFrames] at hv
  cases hfirst : (List.range n).find? (fun i => !(pool.frames i).valid) with
  | some m =>
    simp only [hfirst, Option.some.injEq, Prod.mk.injEq] at hv
    obtain ⟨rfl, rfl, rfl⟩ := hv
    have hvalid := List.find?_some hfirst
    exact .free (List.mem_range.mp (List.mem_of_find?_eq_some hfirst)) (by simpa using hvalid)
  | none =>
    simp only [hfirst, Option.map_eq_some_iff] at hv
    obtain ⟨m, hback, hm⟩ := hv
    simp only [Prod.mk.injEq] at hm
    obtain ⟨rfl, rfl, rfl⟩ := hm
    have hall : ∀ j < n, (pool.frames j).valid = true := by
      intro j hj
      simpa using List.find?_eq_none.mp hfirst j (List.mem_range.mpr hj)
    have hfind : ∀ xs, pool.lru.Represents xs → (∀ j, j ∈ xs ↔ pool.InUse n j) →
        xs.reverse.find? (fun j => (pool.frames j).pinCount == 0) = some m := by
      intro xs hxs hmem
      rwa [Links.findBack_spec hxs _ (length_le_numFrames hxs.nodup hmem)] at hback
    obtain ⟨xs, hxs, hmem⟩ := h.lru
    have hvictim := hfind xs hxs hmem
    have hin := List.mem_reverse.mp (List.mem_of_find?_eq_some hvictim)
    have hpin := List.find?_some hvictim
    exact .evicted ((hmem m).mp hin) (by simpa using hpin) hall hfind

/-- **The cases of a fetch.** -/
theorem PoolShape.fetchEnds (h : PoolShape n pool) (hn : 0 < n) (hn' : n < 2 ^ 30) (files : DataFiles)
    (k : PageKey) (io : IoScript) :
    FetchEnds n pool files k io (bufferPoolFetch pool files k io) := by
  unfold bufferPoolFetch
  cases hfind : pool.frameOf k with
  | some i =>
    obtain ⟨hi, hkey⟩ := (h.frameOf_eq_some hn hn').mp hfind
    exact .hit i hi hkey
  | none =>
    have hnew := (h.frameOf_eq_none hn hn').mp hfind
    cases hv : pool.findVictim files (io 0) with
    | none =>
      have hvictim := h.findVictim files (io 0)
      rw [hv] at hvictim
      exact .pinned hnew hvictim
    | some r =>
      obtain ⟨i, pool', files'⟩ := r
      simp only
      cases hread : io 1 with
      | ok => exact .loaded hnew (h.freed hv) hread
      | short m => exact .unread hnew (h.freed hv) (by rw [hread]; exact IoResult.noConfusion)

end Fetch

/-! ## Calls -/

/-- A call of the pool with the outcomes of its reads and writes, or a store through a pointer to the
buffer of a frame. -/
inductive PoolCall where
  | fetch (k : PageKey) (io : IoScript)
  | unpin (k : PageKey)
  | markDirty (k : PageKey)
  | flushPage (k : PageKey) (io : IoResult)
  | flushAll (io : IoScript)
  | store (i : Nat) (page : Bytes) (hpage : page.length = PAGE_SIZE)

/-- The pool and the files after a call. -/
def PoolCall.run (s : BufferPool × DataFiles) : PoolCall → BufferPool × DataFiles
  | .fetch k io => ((bufferPoolFetch s.1 s.2 k io).1, (bufferPoolFetch s.1 s.2 k io).2.1)
  | .unpin k => (bufferPoolUnpin s.1 k, s.2)
  | .markDirty k => (bufferPoolMarkDirty s.1 k, s.2)
  | .flushPage k io => ((bufferPoolFlushPage s.1 s.2 k io).1, (bufferPoolFlushPage s.1 s.2 k io).2.1)
  | .flushAll io => ((bufferPoolFlushAll s.1 s.2 io).1, (bufferPoolFlushAll s.1 s.2 io).2.1)
  | .store i page _ => (s.1.setFrame i { s.1.frames i with buf := page }, s.2)

/-- The shape of the pool, and no pin on a free frame. -/
structure PoolKept (n : Nat) (pool : BufferPool) : Prop where
  shape : PoolShape n pool
  unpinned : ∀ i < n, (pool.frames i).valid = false → (pool.frames i).pinCount = 0

section Kept

variable {n : Nat} {pool : BufferPool}

/-- A frame changes that keeps its page, and stays unpinned where it is free. -/
theorem PoolKept.setFrame (h : PoolKept n pool) {i : Nat} {f : Frame}
    (hkey : f.key = (pool.frames i).key) (hvalid : f.valid = (pool.frames i).valid)
    (hpin : f.valid = false → f.pinCount = (pool.frames i).pinCount) :
    PoolKept n (pool.setFrame i f) := by
  refine ⟨h.shape.setFrame hkey hvalid, fun j hj hfree => ?_⟩
  rcases eq_or_ne j i with rfl | hne
  · rw [setFrame_self] at hfree ⊢
    rw [hpin hfree]
    exact h.unpinned j hj (hvalid ▸ hfree)
  · have hother : (pool.setFrame i f).frames j = pool.frames j := Function.update_of_ne hne _ _
    rw [hother] at hfree ⊢
    exact h.unpinned j hj hfree

/-- Eviction leaves the other frames. -/
theorem evict_frames_ne {files : DataFiles} {io : IoResult} {i j : Nat} (hne : j ≠ i) :
    (pool.evict files i io).1.frames j = pool.frames j := by
  simp [BufferPool.evict, BufferPool.setFrame, lruRemove, mapRemove, hne]

theorem evict_valid (files : DataFiles) (io : IoResult) (i : Nat) :
    ((pool.evict files i io).1.frames i).valid = false := by
  simp [BufferPool.evict, BufferPool.setFrame]

/-- An unpinned frame is freed. -/
theorem PoolKept.evict (h : PoolKept n pool) (hn : 0 < n) (hn' : n < 2 ^ 30) {i : Nat}
    (hi : pool.InUse n i) (hpin : (pool.frames i).pinCount = 0) (files : DataFiles) (io : IoResult) :
    PoolKept n (pool.evict files i io).1 := by
  refine ⟨h.shape.evict hn hn' hi files io, fun j hj hfree => ?_⟩
  rcases eq_or_ne j i with rfl | hne
  · simpa [BufferPool.evict, BufferPool.setFrame] using hpin
  · rw [evict_frames_ne hne] at hfree ⊢
    exact h.unpinned j hj hfree

/-- A page is loaded into a free frame. -/
theorem PoolKept.load (h : PoolKept n pool) (hn : 0 < n) (hn' : n < 2 ^ 30) {i : Nat} (hi : i < n)
    (hfree : (pool.frames i).valid = false) {k : PageKey}
    (hnew : ∀ j, pool.InUse n j → (pool.frames j).key ≠ k) (page : Bytes) :
    PoolKept n (((pool.setFrame i ⟨page, k, 1, false, true⟩).mapInsert k i).lruPushFront i) := by
  refine ⟨h.shape.load hn hn' hi hfree rfl rfl hnew, fun j hj hv => ?_⟩
  simp only [lruPushFront, mapInsert] at hv ⊢
  rcases eq_or_ne j i with rfl | hne
  · rw [setFrame_self] at hv
    cases hv
  · rw [show (pool.setFrame i _).frames j = pool.frames j from Function.update_of_ne hne _ _] at hv ⊢
    exact h.unpinned j hj hv

theorem PoolKept.freed (h : PoolKept n pool) (hn : 0 < n) (hn' : n < 2 ^ 30) {files : DataFiles}
    {io : IoResult} {i : Nat} {pool' : BufferPool} {files' : DataFiles}
    (hfreed : Freed n pool files io i pool' files') :
    PoolKept n pool' ∧ i < n ∧ (pool'.frames i).valid = false ∧
      ∀ j, pool'.InUse n j → pool.InUse n j ∧ pool'.frames j = pool.frames j := by
  cases hfreed with
  | free hi hfree => exact ⟨h, hi, hfree, fun j hj => ⟨hj, rfl⟩⟩
  | evicted hi hpin _ _ =>
    exact ⟨h.evict hn hn' hi hpin files io, hi.1, evict_valid files io i, fun j hj => evict_inUse hj⟩

/-- **A fetch**, however its write and its read end. -/
theorem PoolKept.fetch (h : PoolKept n pool) (hn : 0 < n) (hn' : n < 2 ^ 30) (files : DataFiles)
    (k : PageKey) (io : IoScript) : PoolKept n (bufferPoolFetch pool files k io).1 := by
  have hends := h.shape.fetchEnds hn hn' files k io
  generalize bufferPoolFetch pool files k io = r at hends ⊢
  cases hends with
  | hit i hi hkey =>
    have hset := h.setFrame (i := i)
      (f := { pool.frames i with pinCount := ((pool.frames i).pinCount + 1) % 2 ^ 32 }) rfl rfl
      fun hfree => by
        rw [show (pool.frames i).valid = true from hi.2] at hfree
        cases hfree
    refine ⟨hset.shape.lruTouch ⟨hi.1, ?_⟩, hset.unpinned⟩
    rw [setFrame_self]
    exact hi.2
  | pinned hnew hall => exact h
  | unread hnew hfreed hread => exact (h.freed hn hn' hfreed).1
  | @loaded i pool' files' hnew hfreed hread =>
    obtain ⟨hkept, hi, hfree, hrest⟩ := h.freed hn hn' hfreed
    refine hkept.load hn hn' hi hfree (fun j hj => ?_) _
    obtain ⟨hj', hframe⟩ := hrest j hj
    rw [hframe]
    exact hnew j hj'

/-- A frame that is found changes its pins. -/
theorem PoolKept.unpin (h : PoolKept n pool) (hn : 0 < n) (hn' : n < 2 ^ 30) (k : PageKey) :
    PoolKept n (bufferPoolUnpin pool k) := by
  unfold bufferPoolUnpin
  cases hfind : pool.frameOf k with
  | none => exact h
  | some i =>
    obtain ⟨hi, -⟩ := (h.shape.frameOf_eq_some hn hn').mp hfind
    simp only
    split
    · exact h
    · refine h.setFrame rfl rfl fun hfree => ?_
      rw [show (pool.frames i).valid = true from hi.2] at hfree
      cases hfree

theorem PoolKept.markDirty (h : PoolKept n pool) (k : PageKey) :
    PoolKept n (bufferPoolMarkDirty pool k) := by
  unfold bufferPoolMarkDirty
  split
  · exact h
  · exact h.setFrame rfl rfl fun _ => rfl

theorem PoolKept.flushPage (h : PoolKept n pool) (files : DataFiles) (k : PageKey) (io : IoResult) :
    PoolKept n (bufferPoolFlushPage pool files k io).1 := by
  unfold bufferPoolFlushPage
  split
  · exact h
  · simp only
    split
    · split
      · exact h.setFrame rfl rfl fun _ => rfl
      · exact h
    · exact h

theorem PoolKept.flushFrame {s : BufferPool × DataFiles × Bool} (h : PoolKept n s.1) (io : IoScript)
    (i : Nat) : PoolKept n (flushFrame io s i).1 := by
  unfold Ticketing.flushFrame
  simp only
  split
  · split
    · exact h.setFrame rfl rfl fun _ => rfl
    · exact h
  · exact h

theorem PoolKept.flushFrames {s : BufferPool × DataFiles × Bool} (h : PoolKept n s.1) (io : IoScript)
    (is : List Nat) : PoolKept n (is.foldl (Ticketing.flushFrame io) s).1 := by
  induction is generalizing s with
  | nil => exact h
  | cons i is ih => exact ih (h.flushFrame io i)

/-- **Every call** keeps the shape. -/
theorem PoolKept.run {s : BufferPool × DataFiles} (h : PoolKept n s.1) (hn : 0 < n) (hn' : n < 2 ^ 30)
    (call : PoolCall) : PoolKept n (call.run s).1 := by
  cases call with
  | fetch k io => exact h.fetch hn hn' s.2 k io
  | unpin k => exact h.unpin hn hn' k
  | markDirty k => exact h.markDirty k
  | flushPage k io => exact h.flushPage s.2 k io
  | flushAll io => exact PoolKept.flushFrames h io _
  | store i page hpage => exact h.setFrame rfl rfl fun _ => rfl

theorem poolKept_create (hn' : n < 2 ^ 30) : PoolKept n (bufferPoolCreate n) :=
  ⟨poolShape_create hn', fun _ _ _ => rfl⟩

/-- Every run of calls. -/
theorem PoolKept.runs {s : BufferPool × DataFiles} (h : PoolKept n s.1) (hn : 0 < n) (hn' : n < 2 ^ 30)
    (calls : List PoolCall) : PoolKept n (calls.foldl PoolCall.run s).1 := by
  induction calls generalizing s with
  | nil => exact h
  | cons call calls ih => exact ih (h.run hn hn' call)

end Kept

/-! ## The representation -/

/-- The frame that an occupied bucket points to. -/
def BufferPool.bucketFrame (pool : BufferPool) (b : Nat) : Nat := ((pool.map b).map Prod.snd).getD 0

/-- Buckets, frames and list stand for one set of pages. -/
structure PoolConsistent (n : Nat) (pool : BufferPool) : Prop where
  buckets : Set.BijOn pool.bucketFrame {b | b < pool.mapCapacity ∧ (pool.map b).isSome}
    {i | pool.InUse n i}
  bucketKey : ∀ b k i, pool.map b = some (k, i) → b < pool.mapCapacity ∧ (pool.frames i).key = k
  keys : ∀ i j, pool.InUse n i → pool.InUse n j → (pool.frames i).key = (pool.frames j).key → i = j
  bucketKeys : ∀ b b' k i i', pool.map b = some (k, i) → pool.map b' = some (k, i') → b = b'
  found : ∀ i, pool.InUse n i →
    ∃ b, pool.mapFind (pool.frames i).key = some b ∧ pool.map b = some ((pool.frames i).key, i)
  notFound : ∀ k, (∀ i, pool.InUse n i → (pool.frames i).key ≠ k) → pool.mapFind k = none
  list : ∃ xs, pool.lru.Represents xs ∧ ∀ i, i ∈ xs ↔ pool.InUse n i
  unpinned : ∀ i < n, (pool.frames i).valid = false → (pool.frames i).pinCount = 0
  victim : ∀ files io i pool' files', pool.findVictim files io = some (i, pool', files') →
    i < n ∧ (pool.frames i).pinCount = 0

theorem PoolKept.consistent {n : Nat} {pool : BufferPool} (h : PoolKept n pool) (hn : 0 < n)
    (hn' : n < 2 ^ 30) : PoolConsistent n pool := by
  have hshape := h.shape
  have hfind : ∀ k b, pool.mapFind k = some b ↔ ∃ i, pool.map b = some (k, i) := by
    intro k b
    rw [mapFind, hshape.capacity]
    exact Probing.find_eq_some hshape.map (by omega) (by omega) (pageHash_lt hn)
  have hentry : ∀ b k i, pool.map b = some (k, i) → pool.InUse n i ∧ (pool.frames i).key = k :=
    fun b k i hb => (hshape.holds k i).mp ⟨b, hb⟩
  have hframe : ∀ b k i, pool.map b = some (k, i) → pool.bucketFrame b = i := by
    intro b k i hb
    rw [bucketFrame, hb]
    rfl
  refine ⟨⟨?_, ?_, ?_⟩, fun b k i hb => ⟨?_, (hentry b k i hb).2⟩, fun i j hi hj => hshape.key_inj hi hj,
    fun b b' k i i' hb hb' => hshape.map.keys b b' _ _ hb hb' rfl, fun i hi => ?_, fun k hno => ?_,
    hshape.lru, h.unpinned, fun files io i pool' files' hv => ?_⟩
  · rintro b ⟨-, hb⟩
    obtain ⟨⟨k, i⟩, hb⟩ := Option.isSome_iff_exists.mp hb
    rw [hframe b k i hb]
    exact (hentry b k i hb).1
  · rintro b ⟨-, hb⟩ b' ⟨-, hb'⟩ heq
    obtain ⟨⟨k, i⟩, hb⟩ := Option.isSome_iff_exists.mp hb
    obtain ⟨⟨k', i'⟩, hb'⟩ := Option.isSome_iff_exists.mp hb'
    rw [hframe b k i hb, hframe b' k' i' hb'] at heq
    exact hshape.map.indices b b' _ _ hb hb' heq
  · intro i hi
    obtain ⟨b, hb⟩ := (hshape.holds _ i).mpr ⟨hi, rfl⟩
    refine ⟨b, ⟨?_, by rw [hb]; rfl⟩, hframe b _ i hb⟩
    rw [hshape.capacity]
    exact hshape.map.bound b _ hb
  · rw [hshape.capacity]
    exact hshape.map.bound b _ hb
  · obtain ⟨b, hb⟩ := (hshape.holds _ i).mpr ⟨hi, rfl⟩
    exact ⟨b, (hfind _ b).mpr ⟨i, hb⟩, hb⟩
  · cases hres : pool.mapFind k with
    | none => rfl
    | some b =>
      obtain ⟨i, hb⟩ := (hfind k b).mp hres
      exact absurd (hentry b k i hb).2 (hno i (hentry b k i hb).1)
  · cases hshape.freed hv with
    | free hi hfree => exact ⟨hi, h.unpinned i hi hfree⟩
    | evicted hi hpin _ _ => exact ⟨hi.1, hpin⟩

/-- **The representation of the pool.**  After every sequence of calls, whatever reads and writes fail:
the occupied buckets are in bijection with the frames in use, no page is there twice, the map finds
each of them and no other, the list has exactly these frames once each, free frames are not pinned, and
a pinned frame is never the victim. -/
theorem pool_consistent {n : Nat} (hn : 1 ≤ n) (hn' : n < 2 ^ 30) (files : DataFiles)
    (calls : List PoolCall) :
    PoolConsistent n (calls.foldl PoolCall.run (bufferPoolCreate n, files)).1 :=
  ((poolKept_create hn').runs hn hn' calls).consistent hn hn'

/-- The pool of the server after a read that fails, a torn write of a dirty page and a flush that
fails. -/
theorem pool_consistent_64 : PoolConsistent 64
    ([PoolCall.fetch ⟨3, 0⟩ (fun _ => .short 7), .fetch ⟨3, 1⟩ IoScript.ok, .markDirty ⟨3, 1⟩,
      .flushPage ⟨3, 1⟩ (.short 100), .unpin ⟨3, 1⟩, .unpin ⟨3, 1⟩,
      .flushAll (fun _ => .short 0)].foldl PoolCall.run (bufferPoolCreate 64, fun _ => [])).1 :=
  pool_consistent (by decide) (by decide) _ _

end Ticketing
