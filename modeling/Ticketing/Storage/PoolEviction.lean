import Ticketing.Lib.LruCache
import Ticketing.Storage.PoolFaults

/-!
# The buffer pool evicts the least recently fetched page

The pool beside the reference cache of `LruCache`, which knows no frames, map or list.

* `poolLruStep` — a fetch and an unpin of the pool, and the page that a miss evicts.
* `Recency` — the list of the pool has the pages of the cache in their order.
* `LruPool` — what that means for residents, pins and evictions.
* `pool_is_lru` — every run, for a pool whose map has four buckets a frame.
* `overflowed_map_forgets` — `num_frames * MAP_FACTOR` wraps from `2 ^ 30` frames on.
-/

set_option autoImplicit false

namespace Ticketing

open BufferPool

/-- The page that a fetch evicts: the one in the frame that `_find_victim` finds. -/
def BufferPool.evicts (pool : BufferPool) (files : DataFiles) (k : PageKey) : Option PageKey :=
  match pool.frameOf k, pool.findVictim files .ok with
  | none, some (i, _, _) => if (pool.frames i).valid then some (pool.frames i).key else none
  | _, _ => none

/-- A call of the pool, with reads and writes that succeed. -/
def poolLruStep (s : BufferPool × DataFiles) :
    LruOp PageKey → Option (LruAnswer PageKey) × (BufferPool × DataFiles)
  | .fetch k =>
    let r := bufferPoolFetch s.1 s.2 k IoScript.ok
    (some ⟨r.2.2.isSome, (s.1.frameOf k).isSome, s.1.evicts s.2 k⟩, r.1, r.2.1)
  | .unpin k => (none, bufferPoolUnpin s.1 k, s.2)

/-- What the cache has of a frame. -/
def Frame.entry (f : Frame) : PageKey × Nat := (f.key, f.pinCount)

/-- The list of the pool has the pages of the cache, in their order. -/
structure Recency (n : Nat) (pool : BufferPool) (c : LruCache PageKey) : Prop where
  kept : PoolKept n pool
  list : ∃ xs, pool.lru.Represents xs ∧ (∀ i, i ∈ xs ↔ pool.InUse n i) ∧
    c = xs.map (fun i => (pool.frames i).entry)

section Recency

variable {n : Nat} {pool : BufferPool} {c : LruCache PageKey} {files : DataFiles}

/-- The entry of a page that is in a frame. -/
theorem Recency.entry (h : Recency n pool c) {i : Nat} (hi : pool.InUse n i) :
    c.entry (pool.frames i).key = some (pool.frames i).entry := by
  obtain ⟨xs, -, hmem, rfl⟩ := h.list
  have hin : (pool.frames i).entry ∈ xs.map (fun i => (pool.frames i).entry) :=
    List.mem_map_of_mem ((hmem i).mpr hi)
  cases he : LruCache.entry (xs.map fun i => (pool.frames i).entry) (pool.frames i).key with
  | none => exact absurd rfl (LruCache.entry_eq_none.mp he _ hin)
  | some e =>
    obtain ⟨hmem', hkey⟩ := LruCache.entry_eq_some he
    obtain ⟨j, hj, rfl⟩ := List.mem_map.mp hmem'
    rw [h.kept.shape.key_inj ((hmem j).mp hj) hi hkey]

/-- A page in no frame has no entry. -/
theorem Recency.no_entry (h : Recency n pool c) {k : PageKey}
    (hnew : ∀ j, pool.InUse n j → (pool.frames j).key ≠ k) : c.entry k = none := by
  obtain ⟨xs, -, hmem, rfl⟩ := h.list
  refine LruCache.entry_eq_none.mpr fun e he => ?_
  obtain ⟨j, hj, rfl⟩ := List.mem_map.mp he
  exact hnew j ((hmem j).mp hj)

/-- Dropping a page is taking its frame out of the list. -/
theorem without_entry {xs : List Nat} (hshape : PoolShape n pool) (hnd : xs.Nodup)
    (hmem : ∀ i, i ∈ xs ↔ pool.InUse n i) {i : Nat} (hi : pool.InUse n i) :
    LruCache.without (xs.map fun i => (pool.frames i).entry) (pool.frames i).key =
      (xs.erase i).map fun i => (pool.frames i).entry := by
  rw [LruCache.without, List.filter_map, hnd.erase_eq_filter]
  congr 1
  refine List.filter_congr fun j hj => ?_
  rcases eq_or_ne j i with rfl | hne
  · simp [Frame.entry]
  · have hkey : (pool.frames j).key ≠ (pool.frames i).key := fun heq =>
      hne (hshape.key_inj ((hmem j).mp hj) hi heq)
    simp only [Function.comp, Frame.entry]
    rw [bne_iff_ne.mpr hkey, bne_iff_ne.mpr hne]

/-- The cache is full when every frame is in use. -/
theorem Recency.length_lt (h : Recency n pool c) :
    c.length < n ↔ ∃ i < n, (pool.frames i).valid = false := by
  obtain ⟨xs, hxs, hmem, rfl⟩ := h.list
  rw [List.length_map]
  constructor
  · intro hlt
    by_contra hno
    push Not at hno
    have hsub : List.range n ⊆ xs := fun i hi =>
      (hmem i).mpr ⟨List.mem_range.mp hi, by simpa using hno i (List.mem_range.mp hi)⟩
    have hle := (List.subperm_of_subset List.nodup_range hsub).length_le
    rw [List.length_range] at hle
    omega
  · rintro ⟨i, hi, hfree⟩
    have hout : i ∉ xs := by
      intro hin
      have hv := ((hmem i).mp hin).2
      rw [hfree] at hv
      cases hv
    have hsub : i :: xs ⊆ List.range n := by
      intro j hj
      rcases List.mem_cons.mp hj with rfl | hj
      · exact List.mem_range.mpr hi
      · exact List.mem_range.mpr ((hmem j).mp hj).1
    have hle := (List.subperm_of_subset (List.nodup_cons.mpr ⟨hout, hxs.nodup⟩) hsub).length_le
    rw [List.length_range, List.length_cons] at hle
    omega

/-- The victim of the cache is the page of the first unpinned frame from the tail. -/
theorem victim_entry (xs : List Nat) :
    LruCache.victim (xs.map fun i => (pool.frames i).entry) =
      (xs.reverse.find? (fun i => (pool.frames i).pinCount == 0)).map (fun i => (pool.frames i).key) := by
  rw [LruCache.victim, ← List.map_reverse, List.find?_map, Option.map_map]
  rfl

/-- A page is loaded into a frame that has just been freed. -/
theorem Recency.load (h : Recency n pool c) (hn : 0 < n) (hn' : n < 2 ^ 30) {i : Nat} (hi : i < n)
    (hfree : (pool.frames i).valid = false) {k : PageKey}
    (hnew : ∀ j, pool.InUse n j → (pool.frames j).key ≠ k) (page : Bytes) :
    Recency n (((pool.setFrame i ⟨page, k, 1, false, true⟩).mapInsert k i).lruPushFront i)
      ((k, 1) :: c) := by
  obtain ⟨xs, hxs, hmem, rfl⟩ := h.list
  have hout : i ∉ xs := by
    intro hin
    have hv := ((hmem i).mp hin).2
    rw [hfree] at hv
    cases hv
  have hother : ∀ j, j ≠ i → (pool.setFrame i ⟨page, k, 1, false, true⟩).frames j = pool.frames j :=
    fun j hj => Function.update_of_ne hj _ _
  have hself := setFrame_self pool i ⟨page, k, 1, false, true⟩
  refine ⟨h.kept.load hn hn' hi hfree hnew page, i :: xs, Links.pushFront_spec hxs hout, fun j => ?_, ?_⟩
  · rw [List.mem_cons, hmem, InUse, InUse]
    simp only [lruPushFront, mapInsert]
    rcases eq_or_ne j i with rfl | hne
    · rw [hself]
      simp [hi]
    · rw [hother j hne]
      simp [hne]
  · simp only [lruPushFront, mapInsert, List.map_cons, hself]
    congr 1
    refine List.map_congr_left fun j hj => ?_
    rw [hother j]
    rintro rfl
    exact hout hj

/-- A frame is freed. -/
theorem Recency.evict (h : Recency n pool c) (hn : 0 < n) (hn' : n < 2 ^ 30) {i : Nat}
    (hi : pool.InUse n i) (hpin : (pool.frames i).pinCount = 0) (io : IoResult) :
    Recency n (pool.evict files i io).1 (c.without (pool.frames i).key) := by
  obtain ⟨xs, hxs, hmem, rfl⟩ := h.list
  have hother : ∀ j, j ≠ i → (pool.evict files i io).1.frames j = pool.frames j :=
    fun j hj => evict_frames_ne hj
  have hgone : ((pool.evict files i io).1.frames i).valid = false := evict_valid files io i
  have herase : ∀ j, j ∈ xs.erase i ↔ j ∈ xs ∧ j ≠ i := by
    intro j
    rw [hxs.nodup.mem_erase_iff]
    exact and_comm
  refine ⟨h.kept.evict hn hn' hi hpin files io, xs.erase i, hxs.remove ((hmem i).mpr hi),
    fun j => ?_, ?_⟩
  · rw [herase, hmem, InUse, InUse]
    rcases eq_or_ne j i with rfl | hne
    · simp [hgone]
    · rw [hother j hne]
      simp [hne]
  · rw [without_entry h.kept.shape hxs.nodup hmem hi]
    refine List.map_congr_left fun j hj => ?_
    rw [hother j ((herase j).mp hj).2]

/-- What a miss evicts, read off the victim. -/
theorem evicts_of_none {k : PageKey} (hfind : pool.frameOf k = none) :
    pool.evicts files k = match pool.findVictim files .ok with
      | some (i, _, _) => if (pool.frames i).valid then some (pool.frames i).key else none
      | none => none := by
  rw [BufferPool.evicts, hfind]
  cases pool.findVictim files .ok <;> rfl

/-- **A fetch** of the pool is a fetch of the cache. -/
theorem Recency.fetch (h : Recency n pool c) (hn : 0 < n) (hn' : n < 2 ^ 30) (files : DataFiles)
    {k : PageKey} (hpins : c.pins k + 1 < 2 ^ 32) :
    (poolLruStep (pool, files) (.fetch k)).1 = (LruCache.step n c (.fetch k)).1 ∧
      Recency n (poolLruStep (pool, files) (.fetch k)).2.1 (LruCache.step n c (.fetch k)).2 := by
  have hshape := h.kept.shape
  simp only [poolLruStep, bufferPoolFetch]
  cases hfind : pool.frameOf k with
  | some i =>
    obtain ⟨hi, rfl⟩ := (hshape.frameOf_eq_some hn hn').mp hfind
    have hentry := h.entry hi
    have hmod : ((pool.frames i).pinCount + 1) % 2 ^ 32 = (pool.frames i).pinCount + 1 := by
      rw [LruCache.pins, hentry] at hpins
      exact Nat.mod_eq_of_lt hpins
    rw [LruCache.step_hit hentry]
    refine ⟨by simp [BufferPool.evicts, hfind], ?_⟩
    simp only [hmod]
    obtain ⟨xs, hxs, hmem, rfl⟩ := h.list
    have hset : PoolKept n (pool.setFrame i
        { pool.frames i with pinCount := (pool.frames i).pinCount + 1 }) := by
      refine h.kept.setFrame rfl rfl fun hfree => ?_
      rw [show (pool.frames i).valid = true from hi.2] at hfree
      cases hfree
    have huse : ∀ j, (pool.setFrame i
        { pool.frames i with pinCount := (pool.frames i).pinCount + 1 }).InUse n j ↔ pool.InUse n j := by
      intro j
      rw [InUse, InUse]
      rcases eq_or_ne j i with rfl | hne
      · rw [setFrame_self]
      · rw [show (pool.setFrame i _).frames j = pool.frames j from Function.update_of_ne hne _ _]
    refine ⟨⟨hset.shape.lruTouch ((huse i).mpr hi), hset.unpinned⟩, i :: xs.erase i,
      hxs.touch ((hmem i).mpr hi), fun j => ?_, ?_⟩
    · refine Iff.trans ?_ (huse j).symm
      rw [List.mem_cons, hxs.nodup.mem_erase_iff, ← hmem j]
      constructor
      · rintro (rfl | hj)
        · exact (hmem j).mpr hi
        · exact hj.2
      · intro hj
        rcases eq_or_ne j i with rfl | hne
        · exact Or.inl rfl
        · exact Or.inr ⟨hne, hj⟩
    · rw [without_entry hshape hxs.nodup hmem hi, List.map_cons]
      congr 1
      · simp [lruTouch, lruRemove, lruPushFront, setFrame_self, Frame.entry]
      · refine List.map_congr_left fun j hj => ?_
        have hne := (hxs.nodup.mem_erase_iff.mp hj).1
        simp [lruTouch, lruRemove, lruPushFront, BufferPool.setFrame, hne]
  | none =>
    have hnew := (hshape.frameOf_eq_none hn hn').mp hfind
    have hentry := h.no_entry hnew
    simp only [evicts_of_none hfind, IoScript.ok_apply]
    cases hv : pool.findVictim files .ok with
    | none =>
      have hvictim := hshape.findVictim files .ok
      rw [hv] at hvictim
      have hfull : ¬ c.length < n := by
        rw [h.length_lt]
        rintro ⟨i, hi, hfree⟩
        rw [(hvictim i hi).1] at hfree
        cases hfree
      have hnone : c.victim = none := by
        obtain ⟨xs, hxs, hmem, rfl⟩ := h.list
        rw [victim_entry, Option.map_eq_none_iff, List.find?_eq_none]
        intro i hi
        simpa using (hvictim i ((hmem i).mp (List.mem_reverse.mp hi)).1).2
      rw [LruCache.step_pinned hentry hfull hnone]
      exact ⟨rfl, h⟩
    | some r =>
      obtain ⟨i, pool', files'⟩ := r
      cases hshape.freed hv with
      | free hi hfree =>
        rw [LruCache.step_room hentry (h.length_lt.mpr ⟨i, hi, hfree⟩)]
        exact ⟨by simp [hfree], h.load hn hn' hi hfree hnew _⟩
      | evicted hi hpin hall hback =>
        have hfull : ¬ c.length < n := by
          rw [h.length_lt]
          rintro ⟨j, hj, hfree⟩
          rw [hall j hj] at hfree
          cases hfree
        have hvictim : c.victim = some (pool.frames i).key := by
          obtain ⟨xs, hxs, hmem, rfl⟩ := h.list
          rw [victim_entry, hback xs hxs hmem]
          rfl
        rw [LruCache.step_evict hentry hfull hvictim]
        refine ⟨by simp [show (pool.frames i).valid = true from hi.2], ?_⟩
        refine (h.evict hn hn' hi hpin .ok).load hn hn' hi.1 (evict_valid files .ok i)
          (fun j hj => ?_) _
        obtain ⟨hj', hframe⟩ : pool.InUse n j ∧ (pool.evict files i .ok).1.frames j = pool.frames j :=
          evict_inUse hj
        rw [hframe]
        exact hnew j hj'

/-- **An unpin** of the pool is an unpin of the cache. -/
theorem Recency.unpin (h : Recency n pool c) (hn : 0 < n) (hn' : n < 2 ^ 30) (k : PageKey) :
    Recency n (bufferPoolUnpin pool k) (LruCache.step n c (.unpin k)).2 := by
  have hshape := h.kept.shape
  obtain ⟨xs, hxs, hmem, rfl⟩ := h.list
  refine ⟨h.kept.unpin hn hn' k, ?_⟩
  unfold bufferPoolUnpin
  cases hfind : pool.frameOf k with
  | none =>
    have hnew := (hshape.frameOf_eq_none hn hn').mp hfind
    refine ⟨xs, hxs, hmem, ?_⟩
    simp only [LruCache.step, List.map_map]
    refine List.map_congr_left fun j hj => ?_
    exact LruCache.unpinEntry_of_ne (hnew j ((hmem j).mp hj))
  | some i =>
    obtain ⟨hi, rfl⟩ := (hshape.frameOf_eq_some hn hn').mp hfind
    -- only the entry of frame `i` has its page
    have hentry : ∀ j ∈ xs, (pool.frames j).key = (pool.frames i).key → j = i := fun j hj hkey =>
      hshape.key_inj ((hmem j).mp hj) hi hkey
    simp only
    split
    · rename_i hzero
      refine ⟨xs, hxs, hmem, ?_⟩
      simp only [LruCache.step, List.map_map]
      refine List.map_congr_left fun j hj => ?_
      by_cases hkey : (pool.frames j).key = (pool.frames i).key
      · have hjzero : (pool.frames j).pinCount = 0 := by rw [hentry j hj hkey, hzero]
        refine (LruCache.unpinEntry_of_eq hkey).trans ?_
        simp only [Frame.entry, hjzero]
      · exact LruCache.unpinEntry_of_ne hkey
    · refine ⟨xs, hxs, fun j => ?_, ?_⟩
      · rw [hmem, InUse, InUse]
        rcases eq_or_ne j i with rfl | hne
        · rw [setFrame_self]
        · rw [show (pool.setFrame i _).frames j = pool.frames j from Function.update_of_ne hne _ _]
      · simp only [LruCache.step, List.map_map]
        refine List.map_congr_left fun j hj => ?_
        rcases eq_or_ne j i with rfl | hne
        · refine (LruCache.unpinEntry_of_eq rfl).trans ?_
          rw [setFrame_self]
          rfl
        · rw [show (pool.setFrame i _).frames j = pool.frames j from Function.update_of_ne hne _ _]
          exact LruCache.unpinEntry_of_ne fun hkey => hne (hentry j hj hkey)

theorem recency_create (hn' : n < 2 ^ 30) : Recency n (bufferPoolCreate n) [] := by
  refine ⟨poolKept_create hn', [], Links.represents_empty, fun i => ?_, rfl⟩
  constructor
  · intro hi
    cases hi
  · rintro ⟨-, hv⟩
    cases hv

end Recency

/-! ## Every run -/

/-- Fewer than `2 ^ 32` outstanding pins. -/
def FewPins (c : LruCache PageKey) : LruOp PageKey → Prop
  | .fetch k => c.pins k + 1 < 2 ^ 32
  | .unpin _ => True

/-- What the eviction policy promises of a pool and the calls so far, the latest first. -/
structure LruPool (n : Nat) (past : List (LruOp PageKey)) (pool : BufferPool) (files : DataFiles)
    (c : LruCache PageKey) : Prop where
  resident : ∀ k, (pool.frameOf k).isSome ↔ ∃ p, (k, p) ∈ c
  pins : ∀ k i, pool.frameOf k = some i → i < n ∧ (pool.frames i).key = k ∧
    (pool.frames i).pinCount = c.pins k
  recency : ∃ xs, pool.lru.Represents xs ∧ c = xs.map (fun i => (pool.frames i).entry)
  ordered : LruCache.Ordered past c
  oldest : ∀ k v, pool.evicts files k = some v → (∀ i < n, (pool.frames i).valid = true) ∧
    (v, 0) ∈ c ∧ ∀ u, (u, 0) ∈ c → u ≠ v → LruCache.lastFetch past v < LruCache.lastFetch past u
  allPinned : ∀ k, pool.frameOf k = none →
    (∀ i < n, (pool.frames i).valid = true ∧ (pool.frames i).pinCount ≠ 0) →
    pool.evicts files k = none ∧ bufferPoolFetch pool files k IoScript.ok = (pool, files, none)

theorem Recency.lruPool {n : Nat} {pool : BufferPool} {c : LruCache PageKey} (h : Recency n pool c)
    (hn : 0 < n) (hn' : n < 2 ^ 30) {past : List (LruOp PageKey)} (hord : LruCache.Ordered past c)
    (files : DataFiles) : LruPool n past pool files c := by
  have hshape := h.kept.shape
  obtain ⟨xs, hxs, hmem, hc⟩ := h.list
  refine ⟨fun k => ?_, fun k i hfind => ?_, ⟨xs, hxs, hc⟩, hord, fun k v hv => ?_, fun k hfind hall => ?_⟩
  · constructor
    · intro hsome
      obtain ⟨i, hfind⟩ := Option.isSome_iff_exists.mp hsome
      obtain ⟨hi, rfl⟩ := (hshape.frameOf_eq_some hn hn').mp hfind
      exact ⟨_, (LruCache.entry_eq_some (h.entry hi)).1⟩
    · rintro ⟨p, hp⟩
      rw [hc] at hp
      obtain ⟨i, hi, heq⟩ := List.mem_map.mp hp
      rw [(hshape.frameOf_eq_some hn hn').mpr ⟨(hmem i).mp hi, congrArg Prod.fst heq⟩]
      rfl
  · obtain ⟨hi, rfl⟩ := (hshape.frameOf_eq_some hn hn').mp hfind
    refine ⟨hi.1, rfl, ?_⟩
    rw [LruCache.pins, h.entry hi]
    rfl
  · rw [BufferPool.evicts] at hv
    cases hfind : pool.frameOf k with
    | some i =>
      rw [hfind] at hv
      cases hv
    | none =>
      cases hvict : pool.findVictim files .ok with
      | none =>
        rw [hfind, hvict] at hv
        cases hv
      | some r =>
        obtain ⟨i, pool', files'⟩ := r
        rw [hfind, hvict] at hv
        simp only at hv
        cases hshape.freed hvict with
        | free hi hfree =>
          rw [hfree] at hv
          cases hv
        | evicted hi hpin hall hback =>
          rw [if_pos hi.2] at hv
          obtain rfl : (pool.frames i).key = v := Option.some.inj hv
          refine ⟨hall, LruCache.victim_oldest hord ?_⟩
          rw [hc, victim_entry, hback xs hxs hmem]
          rfl
  · have hnone : pool.findVictim files .ok = none := by
      cases hv : pool.findVictim files .ok with
      | none => rfl
      | some r =>
        obtain ⟨i, pool', files'⟩ := r
        cases hshape.freed hv with
        | free hi hfree =>
          rw [(hall i hi).1] at hfree
          cases hfree
        | evicted hi hpin _ _ => exact absurd hpin (hall i hi.1).2
    refine ⟨by rw [BufferPool.evicts, hfind, hnone], ?_⟩
    simp only [bufferPoolFetch, hfind, IoScript.ok_apply, hnone]

/-- **Eviction is LRU among unpinned pages**, for a pool of fewer than `2 ^ 30` frames: every sequence of
fetches and unpins hits, misses and evicts as the reference cache does, and leaves its pages, pins and
order; the page evicted is always the unpinned one whose last fetch is oldest; and a miss with every
frame pinned changes nothing. -/
theorem pool_is_lru {n : Nat} (hn : 0 < n) (hn' : n < 2 ^ 30) (files : DataFiles)
    (ops : List (LruOp PageKey)) (hpins : OpsOk (LruCache.step n) FewPins [] ops) :
    let run := runOps poolLruStep (bufferPoolCreate n, files) ops
    let cache := runOps (LruCache.step n) [] ops
    run.1 = cache.1 ∧ LruPool n ops.reverse run.2.1 run.2.2 cache.2 := by
  have hrun := runOps_refines (fun s c => Recency n s.1 c) FewPins
    (fun s c op h hok => by
      cases op with
      | fetch k => exact h.fetch hn hn' s.2 hok
      | unpin k => exact ⟨rfl, h.unpin hn hn' k⟩) ops (s := (bufferPoolCreate n, files))
    (recency_create hn') hpins
  exact ⟨hrun.1, hrun.2.lruPool hn hn' (LruCache.run_ordered n ops) _⟩

/-- A pool of two frames: page 0 is fetched again before page 2 comes, so page 1 goes. -/
theorem pool_is_lru_two : (runOps poolLruStep (bufferPoolCreate 2, fun _ => zeroPage)
    [.fetch ⟨3, 0⟩, .unpin ⟨3, 0⟩, .fetch ⟨3, 1⟩, .unpin ⟨3, 1⟩, .fetch ⟨3, 0⟩, .unpin ⟨3, 0⟩,
      .fetch ⟨3, 2⟩]).1.getLast? = some (some ⟨true, false, some ⟨3, 1⟩⟩) := by
  rw [(pool_is_lru (by decide) (by decide) _ _ (by simp only [OpsOk, FewPins]; decide)).1]
  decide

/-! ## A map that is too small -/

section Overflow

variable {n : Nat} {files : DataFiles}

/-- The pool after pages 0, 1, ... of file 3 have been loaded, one into each frame. -/
def loadedPages (n : Nat) (files : DataFiles) : Nat → BufferPool
  | 0 => bufferPoolCreate n
  | m + 1 =>
    (((loadedPages n files m).setFrame m ⟨files.page ⟨3, m⟩, ⟨3, m⟩, 1, false, true⟩).mapInsert
      ⟨3, m⟩ m).lruPushFront m

theorem loadedPages_numFrames (m : Nat) : (loadedPages n files m).numFrames = n := by
  induction m with
  | zero => rfl
  | succ m ih => exact ih

/-- The first `m` frames are in use, and no other. -/
theorem loadedPages_valid (m i : Nat) : ((loadedPages n files m).frames i).valid = decide (i < m) := by
  induction m with
  | zero => rfl
  | succ m ih =>
    rw [loadedPages]
    simp only [lruPushFront, mapInsert]
    rcases eq_or_ne i m with rfl | hne
    · rw [setFrame_self]
      simp
    · rw [show ((loadedPages n files m).setFrame m _).frames i = (loadedPages n files m).frames i from
        Function.update_of_ne hne _ _, ih]
      simp only [decide_eq_decide]
      omega

/-- The next page, when the map does not find it, goes to the next frame. -/
theorem fetch_loadedPages {m : Nat} (hm : m < n)
    (hmiss : (loadedPages n files m).frameOf ⟨3, m⟩ = none) :
    poolLruStep (loadedPages n files m, files) (.fetch ⟨3, m⟩) =
      (some ⟨true, false, none⟩, loadedPages n files (m + 1), files) := by
  have hfirst : (List.range n).find? (fun i => !((loadedPages n files m).frames i).valid) = some m := by
    rw [List.find?_range_eq_some]
    simp only [loadedPages_valid]
    refine ⟨by simp, List.mem_range.mpr hm, fun j hj => by simp [hj]⟩
  have hvictim : (loadedPages n files m).findVictim files .ok =
      some (m, loadedPages n files m, files) := by
    rw [BufferPool.findVictim, loadedPages_numFrames, hfirst]
  simp only [poolLruStep, bufferPoolFetch, hmiss, evicts_of_none hmiss, IoScript.ok_apply, hvictim,
    loadedPages_valid]
  simp [loadedPages]

end Overflow

/-- Five pages of zeros in every file. -/
def fivePages : DataFiles := fun _ => List.replicate (5 * PAGE_SIZE) 0

/-- The first `m` pages of file 3. -/
def firstFetches (m : Nat) : List (LruOp PageKey) := (List.range m).map fun i => .fetch ⟨3, i⟩

/-- With `2 ^ 30 + 1` frames the map has four buckets.  The fifth page is not found in it. -/
theorem overflowed_misses : ∀ m ≤ 4, (loadedPages (2 ^ 30 + 1) fivePages m).frameOf ⟨3, m⟩ = none := by
  decide +kernel

theorem overflowed_forgets : (loadedPages (2 ^ 30 + 1) fivePages 5).frameOf ⟨3, 4⟩ = none := by
  decide +kernel

/-- **A pool of `2 ^ 30 + 1` frames** forgets the fifth page it loads: the cache has it, the map does not,
and the next fetch of it is a miss where the cache has a hit. -/
theorem overflowed_map_forgets :
    let n := 2 ^ 30 + 1
    let run := runOps poolLruStep (bufferPoolCreate n, fivePages)
    let cache := runOps (LruCache.step n) ([] : LruCache PageKey)
    n < 2 ^ 32 ∧ OpsOk (LruCache.step n) FewPins [] (firstFetches 5 ++ [.fetch ⟨3, 4⟩]) ∧
      ((⟨3, 4⟩, 1) : PageKey × Nat) ∈ (cache (firstFetches 5)).2 ∧
      (run (firstFetches 5)).2.1.frameOf ⟨3, 4⟩ = none ∧
      (run (firstFetches 5 ++ [.fetch ⟨3, 4⟩])).1 ≠ (cache (firstFetches 5 ++ [.fetch ⟨3, 4⟩])).1 := by
  have hstep : ∀ m ≤ 4, poolLruStep (loadedPages (2 ^ 30 + 1) fivePages m, fivePages) (.fetch ⟨3, m⟩) =
      (some ⟨true, false, none⟩, loadedPages (2 ^ 30 + 1) fivePages (m + 1), fivePages) :=
    fun m hm => fetch_loadedPages (by omega) (overflowed_misses m hm)
  have hrun : runOps poolLruStep (bufferPoolCreate (2 ^ 30 + 1), fivePages) (firstFetches 5) =
      (List.replicate 5 (some ⟨true, false, none⟩), loadedPages (2 ^ 30 + 1) fivePages 5, fivePages) := by
    have hlist : firstFetches 5 = [.fetch ⟨3, 0⟩, .fetch ⟨3, 1⟩, .fetch ⟨3, 2⟩, .fetch ⟨3, 3⟩,
        .fetch ⟨3, 4⟩] := rfl
    rw [hlist, show bufferPoolCreate (2 ^ 30 + 1) = loadedPages (2 ^ 30 + 1) fivePages 0 from rfl]
    simp only [runOps, hstep 0 (by decide), hstep 1 (by decide), hstep 2 (by decide),
      hstep 3 (by decide), hstep 4 (by decide)]
    rfl
  have hcache : (runOps (LruCache.step (2 ^ 30 + 1)) [] (firstFetches 5 ++ [.fetch ⟨3, 4⟩])).1.getLast? =
      some (some ⟨true, true, none⟩) := by decide
  have hops : firstFetches 5 ++ [LruOp.fetch ⟨3, 4⟩] = [.fetch ⟨3, 0⟩, .fetch ⟨3, 1⟩, .fetch ⟨3, 2⟩,
      .fetch ⟨3, 3⟩, .fetch ⟨3, 4⟩, .fetch ⟨3, 4⟩] := rfl
  refine ⟨by decide, ?_, by decide, ?_, ?_⟩
  · rw [hops]
    simp only [OpsOk, FewPins]
    decide
  · rw [hrun]
    exact overflowed_forgets
  · intro heq
    have hlast := congrArg List.getLast? heq
    rw [hcache, runOps_concat, hrun, List.getLast?_concat] at hlast
    simp only [poolLruStep, overflowed_forgets, Option.some.injEq, LruAnswer.mk.injEq] at hlast
    exact absurd hlast.2.1 (by decide)

end Ticketing
