import Ticketing.Lib.Runs
import Ticketing.Storage.BufferPool

/-!
# The buffer pool is transparent

Clients fetch pages, write to them while they are pinned, mark them dirty and unpin them; pages are
flushed and new pages are allocated behind the pool's back.  `PoolWorld` runs the pool beside a memory
without any cache.

* `PoolShape` — map, list and frames agree; one lemma for each change of the pool.
* `Contents` — a cached page has the bytes of the memory, a page that is not cached has them on disk.
* `PoolOp`, `PoolWorld.step`, `Permitted` — the operations and what clients may do.
* `poolInv_step` — every permitted step keeps both.
* `pool_transparent` — what a fetch returns and what a flush leaves, after any run in which no new page
  takes the place of a cached one; files of fewer than `2 ^ 32` pages cannot get there.
* `alloc_overwrites_cached` — after that a new page lands on page 0, which may be cached.
-/

set_option autoImplicit false

namespace Ticketing

open BufferPool

/-! ## The shape of a pool -/

/-- Frame `i` holds a page. -/
def BufferPool.InUse (pool : BufferPool) (n i : Nat) : Prop := i < n ∧ (pool.frames i).valid = true

/-- The map has the pages of the frames in use, and the list has these frames. -/
structure PoolShape (n : Nat) (pool : BufferPool) : Prop where
  numFrames : pool.numFrames = n
  capacity : pool.mapCapacity = 4 * n
  map : Probing.Wf n (4 * n) (pageHash (4 * n)) pool.map
  holds : ∀ k i, Probing.Holds pool.map k i ↔ pool.InUse n i ∧ (pool.frames i).key = k
  lru : ∃ xs, pool.lru.Represents xs ∧ ∀ i, i ∈ xs ↔ pool.InUse n i

section Shape

variable {n : Nat} {pool : BufferPool}

theorem pageHash_lt {n : Nat} (hn : 0 < n) (k : PageKey) : pageHash (4 * n) k < 4 * n :=
  Nat.mod_lt _ (by omega)

/-- No two frames hold one page. -/
theorem PoolShape.key_inj (h : PoolShape n pool) {i j : Nat} (hi : pool.InUse n i)
    (hj : pool.InUse n j) (hkey : (pool.frames i).key = (pool.frames j).key) : i = j := by
  obtain ⟨p, hp⟩ := (h.holds _ i).mpr ⟨hi, rfl⟩
  obtain ⟨q, hq⟩ := (h.holds _ j).mpr ⟨hj, rfl⟩
  have hpq := h.map.keys p q _ _ hp hq hkey
  rw [hpq, hq, Option.some.injEq, Prod.mk.injEq] at hp
  exact hp.2.symm

/-- **The map lookup** finds the frame of a page. -/
theorem PoolShape.frameOf_eq_some (h : PoolShape n pool) (hn : 0 < n) (hn' : n < 2 ^ 30)
    {k : PageKey} {i : Nat} :
    pool.frameOf k = some i ↔ pool.InUse n i ∧ (pool.frames i).key = k := by
  have hfind : ∀ b, pool.mapFind k = some b ↔ ∃ i, pool.map b = some (k, i) := by
    intro b
    rw [mapFind, h.capacity]
    exact Probing.find_eq_some h.map (by omega) (by omega) (pageHash_lt hn)
  rw [← h.holds k i]
  constructor
  · intro hf
    obtain ⟨b, hb, he⟩ := Option.bind_eq_some_iff.mp hf
    obtain ⟨i', hi'⟩ := (hfind b).mp hb
    rw [hi', Option.map_some, Option.some.injEq] at he
    exact ⟨b, by rw [hi', ← he]⟩
  · rintro ⟨b, hb⟩
    rw [frameOf, (hfind b).mpr ⟨i, hb⟩, Option.bind_some, hb]
    rfl

theorem PoolShape.frameOf_eq_none (h : PoolShape n pool) (hn : 0 < n) (hn' : n < 2 ^ 30)
    {k : PageKey} :
    pool.frameOf k = none ↔ ∀ i, pool.InUse n i → (pool.frames i).key ≠ k := by
  constructor
  · intro hf i hi hkey
    rw [(h.frameOf_eq_some hn hn').mpr ⟨hi, hkey⟩] at hf
    cases hf
  · intro hno
    cases hf : pool.frameOf k with
    | none => rfl
    | some i =>
      obtain ⟨hi, hkey⟩ := (h.frameOf_eq_some hn hn').mp hf
      exact absurd hkey (hno i hi)

/-- Changing the bytes, the pins or the dirty flag of a frame. -/
theorem PoolShape.setFrame (h : PoolShape n pool) {i : Nat} {f : Frame}
    (hkey : f.key = (pool.frames i).key) (hvalid : f.valid = (pool.frames i).valid) :
    PoolShape n (pool.setFrame i f) := by
  have hframe : ∀ j, ((pool.setFrame i f).frames j).key = (pool.frames j).key ∧
      ((pool.setFrame i f).frames j).valid = (pool.frames j).valid := by
    intro j
    rcases eq_or_ne j i with rfl | hne
    · simp [BufferPool.setFrame, hkey, hvalid]
    · simp [BufferPool.setFrame, hne]
  have huse : ∀ j, (pool.setFrame i f).InUse n j ↔ pool.InUse n j := by
    intro j
    rw [InUse, InUse, (hframe j).2]
  refine ⟨h.numFrames, h.capacity, h.map, ?_, ?_⟩
  · intro k j
    rw [huse, (hframe j).1]
    exact h.holds k j
  · obtain ⟨xs, hxs, hmem⟩ := h.lru
    exact ⟨xs, hxs, fun j => (hmem j).trans (huse j).symm⟩

/-- Moving a frame to the front of the list. -/
theorem PoolShape.lruTouch (h : PoolShape n pool) {i : Nat} (hi : pool.InUse n i) :
    PoolShape n (pool.lruTouch i) := by
  obtain ⟨xs, hxs, hmem⟩ := h.lru
  obtain ⟨pre, post, rfl⟩ := List.append_of_mem ((hmem i).mpr hi)
  have hout : i ∉ pre ++ post := by
    have hnd := hxs.nodup
    rw [List.nodup_middle, List.nodup_cons] at hnd
    exact hnd.1
  refine ⟨h.numFrames, h.capacity, h.map, h.holds, i :: (pre ++ post), ?_, ?_⟩
  · exact Links.pushFront_spec (Links.remove_spec hxs) hout
  · intro j
    have hj := hmem j
    simp only [List.mem_cons, List.mem_append] at hj ⊢
    rw [← show pool.InUse n j ↔ (pool.lruTouch i).InUse n j from Iff.rfl, ← hj]
    tauto

/-- Freeing a frame. -/
theorem PoolShape.evict (h : PoolShape n pool) (hn : 0 < n) (hn' : n < 2 ^ 30) {i : Nat}
    (hi : pool.InUse n i) (files : DataFiles) (io : IoResult) :
    PoolShape n (pool.evict files i io).1 := by
  have hframe : ∀ j, j ≠ i → (pool.evict files i io).1.frames j = pool.frames j := by
    intro j hj
    simp [BufferPool.evict, BufferPool.setFrame, lruRemove, mapRemove, hj]
  have hfree : ((pool.evict files i io).1.frames i).valid = false := by
    simp [BufferPool.evict, BufferPool.setFrame]
  have huse : ∀ j, (pool.evict files i io).1.InUse n j ↔ pool.InUse n j ∧ j ≠ i := by
    intro j
    rcases eq_or_ne j i with rfl | hne
    · rw [InUse, hfree]
      simp
    · rw [InUse, InUse, hframe j hne]
      simp [hne]
  have hremove := Probing.remove_spec h.map (by omega) hn (W := 2 ^ 32) (by omega) (pageHash_lt hn)
    (pool.frames i).key
  have hmap : (pool.evict files i io).1.map =
      Probing.remove (2 ^ 32) (4 * n) (pageHash (4 * n)) pool.map (pool.frames i).key := by
    simp [BufferPool.evict, BufferPool.setFrame, lruRemove, mapRemove, h.capacity]
  refine ⟨h.numFrames, h.capacity, ?_, ?_, ?_⟩
  · rw [hmap]
    exact hremove.1
  · intro k j
    rw [hmap, hremove.2, h.holds, huse]
    constructor
    · rintro ⟨⟨hj, hkey⟩, hne⟩
      have hji : j ≠ i := by
        rintro rfl
        exact hne hkey.symm
      exact ⟨⟨hj, hji⟩, by rw [hframe j hji, hkey]⟩
    · rintro ⟨⟨hj, hji⟩, hkey⟩
      rw [hframe j hji] at hkey
      refine ⟨⟨hj, hkey⟩, ?_⟩
      rintro rfl
      exact hji (h.key_inj hj hi hkey)
  · obtain ⟨xs, hxs, hmem⟩ := h.lru
    obtain ⟨pre, post, rfl⟩ := List.append_of_mem ((hmem i).mpr hi)
    have hnd := hxs.nodup
    rw [List.nodup_middle, List.nodup_cons] at hnd
    refine ⟨pre ++ post, Links.remove_spec hxs, fun j => ?_⟩
    rw [huse, ← hmem j]
    constructor
    · intro hj
      refine ⟨?_, ?_⟩
      · simp only [List.mem_append, List.mem_cons] at hj ⊢
        tauto
      · rintro rfl
        exact hnd.1 hj
    · rintro ⟨hj, hji⟩
      simp only [List.mem_append, List.mem_cons] at hj ⊢
      tauto

/-- Loading a page into a free frame. -/
theorem PoolShape.load (h : PoolShape n pool) (hn : 0 < n) (hn' : n < 2 ^ 30) {i : Nat}
    (hi : i < n) (hfree : (pool.frames i).valid = false) {k : PageKey} {f : Frame}
    (hkey : f.key = k) (hvalid : f.valid = true)
    (hnew : ∀ j, pool.InUse n j → (pool.frames j).key ≠ k) :
    PoolShape n (((pool.setFrame i f).mapInsert k i).lruPushFront i) := by
  have hframe : ∀ j, j ≠ i → (pool.setFrame i f).frames j = pool.frames j := by
    intro j hj
    simp [BufferPool.setFrame, hj]
  have hself : (pool.setFrame i f).frames i = f := by
    simp [BufferPool.setFrame]
  have huse : ∀ j, (pool.setFrame i f).InUse n j ↔ pool.InUse n j ∨ j = i := by
    intro j
    rcases eq_or_ne j i with rfl | hne
    · rw [InUse, hself]
      simp [hi, hvalid]
    · rw [InUse, InUse, hframe j hne]
      simp [hne]
  have hout : ¬ pool.InUse n i := by
    intro hu
    rw [hu.2] at hfree
    cases hfree
  have hins := Probing.insert_spec h.map (by omega) hn (W := 2 ^ 32) (by omega) (pageHash_lt hn)
    (k := k) hi
    (fun p e hp hk => hnew e.2 ((h.holds e.1 e.2).mp ⟨p, hp⟩).1 (((h.holds e.1 e.2).mp ⟨p, hp⟩).2.trans hk))
    (fun p e hp he => hout (he ▸ ((h.holds e.1 e.2).mp ⟨p, hp⟩).1))
  have hmap : (((pool.setFrame i f).mapInsert k i).lruPushFront i).map =
      Probing.insert (2 ^ 32) (4 * n) (pageHash (4 * n)) pool.map k i := by
    simp [BufferPool.setFrame, lruPushFront, mapInsert, h.capacity]
  refine ⟨h.numFrames, h.capacity, ?_, ?_, ?_⟩
  · rw [hmap]
    exact hins.1
  · intro k' j
    rw [hmap, hins.2, h.holds]
    rw [show (((pool.setFrame i f).mapInsert k i).lruPushFront i).InUse n j ↔
      (pool.setFrame i f).InUse n j from Iff.rfl, huse,
      show (((pool.setFrame i f).mapInsert k i).lruPushFront i).frames j =
        (pool.setFrame i f).frames j from rfl]
    rcases eq_or_ne j i with rfl | hne
    · rw [hself, hkey]
      constructor
      · rintro (⟨hu, -⟩ | ⟨rfl, -⟩)
        · exact absurd hu hout
        · exact ⟨Or.inr rfl, rfl⟩
      · rintro ⟨-, rfl⟩
        exact Or.inr ⟨rfl, rfl⟩
    · rw [hframe j hne]
      constructor
      · rintro (⟨hu, hk⟩ | ⟨-, rfl⟩)
        · exact ⟨Or.inl hu, hk⟩
        · exact absurd rfl hne
      · rintro ⟨hu | rfl, hk⟩
        · exact Or.inl ⟨hu, hk⟩
        · exact absurd rfl hne
  · obtain ⟨xs, hxs, hmem⟩ := h.lru
    refine ⟨i :: xs, Links.pushFront_spec hxs (fun hmem' => hout ((hmem i).mp hmem')), fun j => ?_⟩
    rw [show (((pool.setFrame i f).mapInsert k i).lruPushFront i).InUse n j ↔
      (pool.setFrame i f).InUse n j from Iff.rfl, huse, List.mem_cons, hmem]
    tauto

/-- **The victim**: a free frame, or an unpinned one that is freed; there is none only if every frame
is in use and pinned. -/
theorem PoolShape.findVictim (h : PoolShape n pool) (files : DataFiles) (io : IoResult) :
    match pool.findVictim files io with
    | none => ∀ i < n, (pool.frames i).valid = true ∧ (pool.frames i).pinCount ≠ 0
    | some (i, pool', files') =>
      (i < n ∧ (pool.frames i).valid = false ∧ pool' = pool ∧ files' = files) ∨
      (pool.InUse n i ∧ (pool.frames i).pinCount = 0 ∧ (pool', files') = pool.evict files i io) := by
  unfold BufferPool.findVictim
  rw [h.numFrames]
  cases hfree : (List.range n).find? (fun i => !(pool.frames i).valid) with
  | some i =>
    have hi := List.mem_range.mp (List.mem_of_find?_eq_some hfree)
    have hv := List.find?_some hfree
    exact Or.inl ⟨hi, by simpa using hv, rfl, rfl⟩
  | none =>
    have hall : ∀ i < n, (pool.frames i).valid = true := by
      intro i hi
      have hv := List.find?_eq_none.mp hfree i (List.mem_range.mpr hi)
      simpa using hv
    obtain ⟨xs, hxs, hmem⟩ := h.lru
    -- the list has exactly the frames below `n`
    have hlen : xs.length ≤ n := by
      have hsub : xs ⊆ List.range n := fun i hi => List.mem_range.mpr ((hmem i).mp hi).1
      have hcard := (List.subperm_of_subset hxs.nodup hsub).length_le
      rwa [List.length_range] at hcard
    simp only [Links.findBack_spec hxs _ hlen]
    cases hfind : xs.reverse.find? (fun i => (pool.frames i).pinCount == 0) with
    | none =>
      intro i hi
      have hin : i ∈ xs := (hmem i).mpr ⟨hi, hall i hi⟩
      have hp := List.find?_eq_none.mp hfind i (List.mem_reverse.mpr hin)
      exact ⟨hall i hi, by simpa using hp⟩
    | some i =>
      have hin := List.mem_reverse.mp (List.mem_of_find?_eq_some hfind)
      have hp := List.find?_some hfind
      exact Or.inr ⟨(hmem i).mp hin, by simpa using hp, rfl⟩

end Shape

/-- A new pool. -/
theorem poolShape_create {n : Nat} (hn' : n < 2 ^ 30) : PoolShape n (bufferPoolCreate n) where
  numFrames := rfl
  capacity := by
    simp only [bufferPoolCreate, MAP_FACTOR]
    omega
  map := Probing.wf_empty _ _ _
  holds := by
    intro k i
    constructor
    · rintro ⟨p, hp⟩
      cases hp
    · rintro ⟨⟨-, hv⟩, -⟩
      cases hv
  lru := by
    refine ⟨[], Links.represents_empty, fun i => ?_⟩
    constructor
    · intro h
      cases h
    · rintro ⟨-, hv⟩
      cases hv

/-! ## Pages on disk -/

section Files

variable {files : DataFiles} {k : PageKey} {page : Bytes}

theorem DataFiles.page_write (hpage : page.length = PAGE_SIZE) (k' : PageKey) :
    (files.write k page .ok).1.page k' = if k' = k then page else files.page k' := by
  unfold DataFiles.write DataFiles.page
  rcases eq_or_ne k'.fd k.fd with hfd | hfd
  · simp only [hfd, Function.update_self]
    rcases eq_or_ne k'.pageId k.pageId with hid | hid
    · have hk : k' = k := by
        cases k
        cases k'
        simp_all
      rw [if_pos hk, hid]
      exact pageRead_pageWrite_self _ _ hpage
    · have hk : k' ≠ k := fun h => hid (congrArg PageKey.pageId h)
      rw [if_neg hk]
      exact pageRead_pageWrite_ne _ hpage hid
  · have hk : k' ≠ k := fun h => hfd (congrArg PageKey.fd h)
    simp only [Function.update_of_ne hfd, if_neg hk]

theorem DataFiles.pages_write (hpage : page.length = PAGE_SIZE) (hin : k.pageId < files.pages k.fd)
    (fd : Int) : (files.write k page .ok).1.pages fd = files.pages fd := by
  unfold DataFiles.write DataFiles.pages
  rcases eq_or_ne fd k.fd with rfl | hfd
  · simp only [Function.update_self]
    rw [pages_pageWrite hpage hin]
  · simp only [Function.update_of_ne hfd]

/-- Writing a page of the file or the one after its end. -/
theorem DataFiles.pages_write_le (hpage : page.length = PAGE_SIZE) (hle : k.pageId ≤ files.pages k.fd)
    (fd : Int) : (files.write k page .ok).1.pages fd =
      if fd = k.fd then max (files.pages k.fd) (k.pageId + 1) else files.pages fd := by
  rcases Nat.lt_or_eq_of_le hle with hlt | heq
  · rw [DataFiles.pages_write hpage hlt, Nat.max_eq_left hlt]
    split
    · rename_i hfd
      rw [hfd]
    · rfl
  · unfold DataFiles.write DataFiles.pages
    rcases eq_or_ne fd k.fd with rfl | hfd
    · simp only [Function.update_self, if_true, heq]
      rw [DataFiles.pages, pages_pageAlloc hpage]
      omega
    · simp only [Function.update_of_ne hfd, if_neg hfd]

theorem DataFiles.write_ok : (files.write k page .ok).2 = true := rfl

end Files

/-! ## The pool beside a memory -/

/-- The pool and the files; the memory without a cache, the outstanding pins of each page, whether it
has been written and not yet marked, and the frame its clients point to. -/
structure PoolWorld where
  pool : BufferPool
  files : DataFiles
  mem : PageKey → Bytes
  pins : PageKey → Nat
  unmarked : PageKey → Bool
  ptr : PageKey → Nat

/-- What clients and the table layer do. -/
inductive PoolOp where
  | fetch (k : PageKey)
  | write (k : PageKey) (page : Bytes)
  | markDirty (k : PageKey)
  | unpin (k : PageKey)
  | flushPage (k : PageKey)
  | flushAll
  | alloc (fd : Int) (recordSize : Nat)

namespace PoolWorld

/-- A new pool over some files. -/
def init (n : Nat) (files : DataFiles) : PoolWorld :=
  ⟨bufferPoolCreate n, files, files.page, fun _ => 0, fun _ => false, fun _ => 0⟩

/-- What a client gets from a fetch. -/
def fetched (w : PoolWorld) (k : PageKey) : BufferPool × DataFiles × Option Nat :=
  bufferPoolFetch w.pool w.files k IoScript.ok

/-- One operation, with page I/O that succeeds. -/
def step (w : PoolWorld) : PoolOp → Option PoolWorld
  | .fetch k =>
    let r := w.fetched k
    some <| match r.2.2 with
      | none => { w with pool := r.1, files := r.2.1 }
      | some i =>
        { w with
          pool := r.1, files := r.2.1, pins := Function.update w.pins k (w.pins k + 1),
          ptr := Function.update w.ptr k i }
  | .write k page =>
    some { w with
      pool := w.pool.setFrame (w.ptr k) { w.pool.frames (w.ptr k) with buf := page }
      mem := Function.update w.mem k page
      unmarked := Function.update w.unmarked k true }
  | .markDirty k =>
    some { w with
      pool := bufferPoolMarkDirty w.pool k, unmarked := Function.update w.unmarked k false }
  | .unpin k =>
    some { w with
      pool := bufferPoolUnpin w.pool k, pins := Function.update w.pins k (w.pins k - 1) }
  | .flushPage k =>
    let r := bufferPoolFlushPage w.pool w.files k .ok
    some { w with pool := r.1, files := r.2.1 }
  | .flushAll =>
    let r := bufferPoolFlushAll w.pool w.files IoScript.ok
    some { w with pool := r.1, files := r.2.1 }
  | .alloc fd recordSize =>
    let r := pageAlloc (w.files fd) recordSize .ok
    some { w with
      files := Function.update w.files fd r.1
      mem := if recordSize = 0 then w.mem
        else Function.update w.mem ⟨fd, pageGetCount (w.files fd)⟩
          (pageInitHeader (pageGetCount (w.files fd)) recordSize) }

/-- The usage pattern: clients fetch existing pages, write whole pages and mark them while they have
them pinned, and do not give up the last pin of a page they have yet to mark. -/
def Permitted (w : PoolWorld) : PoolOp → Prop
  | .fetch k => k.pageId < pageGetCount (w.files k.fd) ∧ w.pins k + 1 < 2 ^ 32
  | .write k page => 0 < w.pins k ∧ page.length = PAGE_SIZE
  | .markDirty k => 0 < w.pins k
  | .unpin k => 0 < w.pins k ∧ (w.unmarked k = true → 1 < w.pins k)
  | _ => True

/-- A new page is not one that the pool has, as in files of fewer than `2 ^ 32` pages. -/
def Bounded (w : PoolWorld) : PoolOp → Prop
  | .alloc fd _ =>
    w.files.pages fd < 2 ^ 32 ∨ w.pool.frameOf ⟨fd, pageGetCount (w.files fd)⟩ = none
  | _ => True

end PoolWorld

/-- A frame in use has the bytes of the memory, and unless it is dirty or about to be marked so has
the disk. -/
structure FrameOk (w : PoolWorld) (i : Nat) (f : Frame) : Prop where
  buf : f.buf = w.mem f.key
  length : f.buf.length = PAGE_SIZE
  pins : f.pinCount = w.pins f.key
  bound : f.pinCount < 2 ^ 32
  inFile : f.key.pageId < w.files.pages f.key.fd
  ptr : 0 < w.pins f.key → w.ptr f.key = i
  clean : f.dirty = true ∨ w.unmarked f.key = true ∨ w.files.page f.key = w.mem f.key

/-- A page that is not cached is not pinned, and the disk has the bytes of the memory. -/
structure OutOk (w : PoolWorld) (k : PageKey) : Prop where
  pins : w.pins k = 0
  page : k.pageId < w.files.pages k.fd → w.files.page k = w.mem k

/-- The invariant. -/
structure PoolInv (n : Nat) (w : PoolWorld) : Prop where
  shape : PoolShape n w.pool
  frame : ∀ i, w.pool.InUse n i → FrameOk w i (w.pool.frames i)
  out : ∀ k, (∀ i, w.pool.InUse n i → (w.pool.frames i).key ≠ k) → OutOk w k
  unmarked : ∀ k, w.unmarked k = true → 0 < w.pins k

section Invariant

variable {n : Nat} {w w' : PoolWorld}

/-- What a frame is about has not changed. -/
theorem FrameOk.congr {i : Nat} {f : Frame} (h : FrameOk w i f) (hmem : w'.mem f.key = w.mem f.key)
    (hpins : w'.pins f.key = w.pins f.key) (hun : w'.unmarked f.key = w.unmarked f.key)
    (hptr : w'.ptr f.key = w.ptr f.key) (hpage : w'.files.page f.key = w.files.page f.key)
    (hpages : w.files.pages f.key.fd ≤ w'.files.pages f.key.fd) : FrameOk w' i f where
  buf := by rw [hmem]; exact h.buf
  length := h.length
  pins := by rw [hpins]; exact h.pins
  bound := h.bound
  inFile := Nat.lt_of_lt_of_le h.inFile hpages
  ptr := by rw [hpins, hptr]; exact h.ptr
  clean := by rw [hun, hpage, hmem]; exact h.clean

/-- The pins of a page keep it in its frame. -/
theorem PoolInv.pinned (h : PoolInv n w) {k : PageKey} (hk : 0 < w.pins k) :
    ∃ i, w.ptr k = i ∧ w.pool.InUse n i ∧ (w.pool.frames i).key = k := by
  by_cases hcached : ∃ i, w.pool.InUse n i ∧ (w.pool.frames i).key = k
  · obtain ⟨i, hi, rfl⟩ := hcached
    exact ⟨i, (h.frame i hi).ptr hk, hi, rfl⟩
  · push Not at hcached
    have := (h.out k hcached).pins
    omega

/-- A change of frame `i` alone that keeps its page. -/
theorem PoolInv.setFrame (h : PoolInv n w) {i : Nat} (hi : w.pool.InUse n i) {f : Frame}
    (hpool : w'.pool = w.pool.setFrame i f) (hkey : f.key = (w.pool.frames i).key)
    (hvalid : f.valid = true) (hok : FrameOk w' i f)
    (hmem : ∀ k ≠ f.key, w'.mem k = w.mem k) (hpins : ∀ k ≠ f.key, w'.pins k = w.pins k)
    (hun : ∀ k ≠ f.key, w'.unmarked k = w.unmarked k) (hptr : ∀ k ≠ f.key, w'.ptr k = w.ptr k)
    (hpage : ∀ k ≠ f.key, w'.files.page k = w.files.page k)
    (hpages : ∀ fd, w'.files.pages fd = w.files.pages fd)
    (hunmarked : w'.unmarked f.key = true → 0 < w'.pins f.key) : PoolInv n w' := by
  have hshape := h.shape.setFrame hkey (hvalid.trans hi.2.symm)
  rw [← hpool] at hshape
  have hself : w'.pool.frames i = f := by
    rw [hpool]
    simp [BufferPool.setFrame]
  have hother : ∀ j, j ≠ i → w'.pool.frames j = w.pool.frames j := by
    intro j hj
    rw [hpool]
    simp [BufferPool.setFrame, hj]
  have huse : w'.pool.InUse n i := ⟨hi.1, by rw [hself]; exact hvalid⟩
  refine ⟨hshape, ?_, ?_, ?_⟩
  · intro j hj
    rcases eq_or_ne j i with rfl | hne
    · rw [hself]
      exact hok
    · have hj' : w.pool.InUse n j := ⟨hj.1, by rw [← hother j hne]; exact hj.2⟩
      have hk : (w.pool.frames j).key ≠ f.key := by
        rw [hkey]
        exact fun he => hne (h.shape.key_inj hj' hi he)
      rw [hother j hne]
      exact (h.frame j hj').congr (hmem _ hk) (hpins _ hk) (hun _ hk) (hptr _ hk) (hpage _ hk)
        (hpages _).ge
  · intro k hk
    have hkf : k ≠ f.key := by
      rintro rfl
      exact hk i huse (by rw [hself])
    have hout := h.out k (fun j hj he => by
      have hji : j ≠ i := by
        rintro rfl
        exact hkf (he.symm.trans hkey.symm)
      exact hk j ⟨hj.1, by rw [hother j hji]; exact hj.2⟩ (by rw [hother j hji]; exact he))
    refine ⟨by rw [hpins k hkf]; exact hout.pins, fun hin => ?_⟩
    rw [hpages] at hin
    rw [hpage k hkf, hmem k hkf]
    exact hout.page hin
  · intro k hk
    rcases eq_or_ne k f.key with rfl | hkf
    · exact hunmarked hk
    · rw [hun k hkf] at hk
      rw [hpins k hkf]
      exact h.unmarked k hk

/-! ## Every operation -/

/-- A client writes through its pointer. -/
theorem PoolInv.write (h : PoolInv n w) {k : PageKey} {page : Bytes} (hk : 0 < w.pins k)
    (hpage : page.length = PAGE_SIZE) (hs : w.step (.write k page) = some w') : PoolInv n w' := by
  cases hs
  obtain ⟨i, hptr, hi, rfl⟩ := h.pinned hk
  have hf := h.frame i hi
  refine h.setFrame hi (f := { w.pool.frames i with buf := page }) (by rw [hptr]) rfl hi.2
    ⟨?_, hpage, hf.pins, hf.bound, hf.inFile, hf.ptr, ?_⟩ ?_ (fun _ _ => rfl) ?_ (fun _ _ => rfl)
    (fun _ _ => rfl) (fun _ => rfl) (fun _ => hk)
  · simp only [Function.update_self]
  · right
    left
    simp only [Function.update_self]
  · intro k' hk'
    exact Function.update_of_ne hk' _ _
  · intro k' hk'
    exact Function.update_of_ne hk' _ _

theorem PoolInv.markDirty (h : PoolInv n w) (hn : 0 < n) (hn' : n < 2 ^ 30) {k : PageKey}
    (hk : 0 < w.pins k) (hs : w.step (.markDirty k) = some w') : PoolInv n w' := by
  cases hs
  obtain ⟨i, hptr, hi, rfl⟩ := h.pinned hk
  have hf := h.frame i hi
  have hfind := (h.shape.frameOf_eq_some hn hn').mpr ⟨hi, rfl⟩
  refine h.setFrame hi (f := { w.pool.frames i with dirty := true }) ?_ rfl hi.2
    ⟨hf.buf, hf.length, hf.pins, hf.bound, hf.inFile, hf.ptr, Or.inl rfl⟩
    (fun _ _ => rfl) (fun _ _ => rfl) ?_ (fun _ _ => rfl) (fun _ _ => rfl) (fun _ => rfl)
    (fun _ => hk)
  · simp only [bufferPoolMarkDirty, hfind]
  · intro k' hk'
    exact Function.update_of_ne hk' _ _

theorem PoolInv.unpin (h : PoolInv n w) (hn : 0 < n) (hn' : n < 2 ^ 30) {k : PageKey}
    (hk : 0 < w.pins k) (hlast : w.unmarked k = true → 1 < w.pins k)
    (hs : w.step (.unpin k) = some w') : PoolInv n w' := by
  cases hs
  obtain ⟨i, hptr, hi, rfl⟩ := h.pinned hk
  have hf := h.frame i hi
  have hpins := hf.pins
  have hbound := hf.bound
  have hfind := (h.shape.frameOf_eq_some hn hn').mpr ⟨hi, rfl⟩
  refine h.setFrame hi (f := { w.pool.frames i with pinCount := (w.pool.frames i).pinCount - 1 })
    ?_ rfl hi.2 ⟨hf.buf, hf.length, ?_, ?_, hf.inFile, fun _ => hptr, hf.clean⟩
    (fun _ _ => rfl) ?_ (fun _ _ => rfl) (fun _ _ => rfl) (fun _ _ => rfl) (fun _ => rfl) ?_
  · simp only [bufferPoolUnpin, hfind]
    rw [if_neg (by omega)]
  · simp only [Function.update_self, hpins]
  · exact Nat.lt_of_le_of_lt (Nat.sub_le _ _) hbound
  · intro k' hk'
    exact Function.update_of_ne hk' _ _
  · intro hun
    simp only [Function.update_self]
    have := hlast hun
    omega

/-- Where a frame stands in the list does not matter. -/
theorem PoolInv.touch (h : PoolInv n w) {i : Nat} (hi : w.pool.InUse n i) :
    PoolInv n { w with pool := w.pool.lruTouch i } := by
  refine ⟨h.shape.lruTouch hi, fun j hj => ?_, fun k hk => ?_, h.unmarked⟩
  · exact (h.frame j hj).congr rfl rfl rfl rfl rfl (Nat.le_refl _)
  · have hout := h.out k hk
    exact ⟨hout.pins, hout.page⟩

/-- A page in its frame is fetched. -/
theorem PoolInv.hit (h : PoolInv n w) {k : PageKey} {i : Nat} (hi : w.pool.InUse n i)
    (hkey : (w.pool.frames i).key = k) (hpins : w.pins k + 1 < 2 ^ 32) :
    PoolInv n { w with
      pool := (w.pool.setFrame i { w.pool.frames i with
        pinCount := ((w.pool.frames i).pinCount + 1) % 2 ^ 32 }).lruTouch i
      pins := Function.update w.pins k (w.pins k + 1), ptr := Function.update w.ptr k i } := by
  have hf := h.frame i hi
  have hcount : ((w.pool.frames i).pinCount + 1) % 2 ^ 32 = w.pins k + 1 := by
    rw [hf.pins, hkey, Nat.mod_eq_of_lt hpins]
  subst hkey
  have hset : PoolInv n { w with
      pool := w.pool.setFrame i { w.pool.frames i with
        pinCount := ((w.pool.frames i).pinCount + 1) % 2 ^ 32 }
      pins := Function.update w.pins (w.pool.frames i).key (w.pins (w.pool.frames i).key + 1)
      ptr := Function.update w.ptr (w.pool.frames i).key i } := by
    refine h.setFrame hi rfl rfl hi.2 ⟨hf.buf, hf.length, ?_, ?_, hf.inFile, ?_, hf.clean⟩
      (fun _ _ => rfl) ?_ (fun _ _ => rfl) ?_ (fun _ _ => rfl) (fun _ => rfl) ?_
    · simp only [Function.update_self]
      exact hcount
    · exact Nat.mod_lt _ (by decide)
    · intro _
      exact Function.update_self _ _ _
    · intro k' hk'
      exact Function.update_of_ne hk' _ _
    · intro k' hk'
      exact Function.update_of_ne hk' _ _
    · intro _
      simp only [Function.update_self]
      omega
  apply hset.touch
  refine ⟨hi.1, ?_⟩
  simp only [BufferPool.setFrame, Function.update_self]
  exact hi.2

/-- A frame nobody has pinned is freed. -/
theorem PoolInv.evict (h : PoolInv n w) (hn : 0 < n) (hn' : n < 2 ^ 30) {i : Nat}
    (hi : w.pool.InUse n i) (hpin : (w.pool.frames i).pinCount = 0) :
    PoolInv n { w with pool := (w.pool.evict w.files i .ok).1, files := (w.pool.evict w.files i .ok).2 } := by
  have hf := h.frame i hi
  have hframe : ∀ j, j ≠ i → (w.pool.evict w.files i .ok).1.frames j = w.pool.frames j := by
    intro j hj
    simp [BufferPool.evict, BufferPool.setFrame, lruRemove, mapRemove, hj]
  have hfree : ¬ (w.pool.evict w.files i .ok).1.InUse n i := by
    rintro ⟨-, hv⟩
    simp [BufferPool.evict, BufferPool.setFrame] at hv
  -- nobody is about to mark the page
  have hpins : w.pins (w.pool.frames i).key = 0 := by rw [← hf.pins, hpin]
  have hmarked : w.unmarked (w.pool.frames i).key ≠ true := by
    intro hun
    have := h.unmarked _ hun
    omega
  have hpages : ∀ fd, (w.pool.evict w.files i .ok).2.pages fd = w.files.pages fd := by
    intro fd
    simp only [BufferPool.evict]
    split
    · exact DataFiles.pages_write hf.length hf.inFile fd
    · rfl
  have hpage : ∀ k, k ≠ (w.pool.frames i).key →
      (w.pool.evict w.files i .ok).2.page k = w.files.page k := by
    intro k hk
    simp only [BufferPool.evict]
    split
    · rw [DataFiles.page_write hf.length, if_neg hk]
    · rfl
  have hback : (w.pool.evict w.files i .ok).2.page (w.pool.frames i).key =
      w.mem (w.pool.frames i).key := by
    simp only [BufferPool.evict]
    split
    · rw [DataFiles.page_write hf.length, if_pos rfl, hf.buf]
    · rename_i hdirty
      exact (hf.clean.resolve_left hdirty).resolve_left hmarked
  refine ⟨h.shape.evict hn hn' hi w.files .ok, ?_, ?_, h.unmarked⟩
  · intro j hj
    have hji : j ≠ i := by
      rintro rfl
      exact hfree hj
    have hj' : w.pool.InUse n j := ⟨hj.1, by rw [← hframe j hji]; exact hj.2⟩
    have hk : (w.pool.frames j).key ≠ (w.pool.frames i).key := fun he =>
      hji (h.shape.key_inj hj' hi he)
    simp only [hframe j hji]
    exact (h.frame j hj').congr rfl rfl rfl rfl (hpage _ hk) (hpages _).ge
  · intro k hk
    rcases eq_or_ne k (w.pool.frames i).key with rfl | hne
    · exact ⟨hpins, fun _ => hback⟩
    · have hout := h.out k (fun j hj he => by
        have hji : j ≠ i := by
          rintro rfl
          exact hne he.symm
        exact hk j ⟨hj.1, by simp only [hframe j hji]; exact hj.2⟩ (by simp only [hframe j hji]; exact he))
      refine ⟨hout.pins, fun hin => ?_⟩
      simp only [hpages] at hin
      simp only [hpage k hne]
      exact hout.page hin

/-- A page is loaded into a free frame. -/
theorem PoolInv.load (h : PoolInv n w) (hn : 0 < n) (hn' : n < 2 ^ 30) {i : Nat} (hi : i < n)
    (hfree : (w.pool.frames i).valid = false) {k : PageKey}
    (hnew : ∀ j, w.pool.InUse n j → (w.pool.frames j).key ≠ k)
    (hin : k.pageId < w.files.pages k.fd) :
    PoolInv n { w with
      pool := ((w.pool.setFrame i ⟨w.files.page k, k, 1, false, true⟩).mapInsert k i).lruPushFront i
      pins := Function.update w.pins k (w.pins k + 1), ptr := Function.update w.ptr k i } := by
  have hout := h.out k hnew
  have hframe : ∀ j, j ≠ i →
      (w.pool.setFrame i ⟨w.files.page k, k, 1, false, true⟩).frames j = w.pool.frames j := by
    intro j hj
    simp [BufferPool.setFrame, hj]
  have hself : (w.pool.setFrame i ⟨w.files.page k, k, 1, false, true⟩).frames i =
      ⟨w.files.page k, k, 1, false, true⟩ := by
    simp [BufferPool.setFrame]
  refine ⟨h.shape.load hn hn' hi hfree rfl rfl hnew, ?_, ?_, ?_⟩
  · intro j hj
    simp only [lruPushFront, mapInsert] at hj ⊢
    rcases eq_or_ne j i with rfl | hji
    · rw [hself]
      refine ⟨hout.page hin, length_pageRead _ _, ?_, ?_, hin, ?_, ?_⟩
      · simp only [Function.update_self, hout.pins]
      · exact show 1 < 2 ^ 32 by decide
      · intro _
        exact Function.update_self _ _ _
      · exact Or.inr (Or.inr (hout.page hin))
    · have hj' : w.pool.InUse n j := ⟨hj.1, by rw [← hframe j hji]; exact hj.2⟩
      have hk := hnew j hj'
      rw [hframe j hji]
      exact (h.frame j hj').congr rfl (Function.update_of_ne hk _ _) rfl (Function.update_of_ne hk _ _)
        rfl (Nat.le_refl _)
  · intro k' hk'
    have hne : k' ≠ k := by
      rintro rfl
      refine hk' i ⟨hi, ?_⟩ ?_
      · simp only [lruPushFront, mapInsert, hself]
      · simp only [lruPushFront, mapInsert, hself]
    have hout' := h.out k' (fun j hj he => by
      have hji : j ≠ i := by
        rintro rfl
        rw [hj.2] at hfree
        cases hfree
      refine hk' j ⟨hj.1, ?_⟩ ?_
      · simp only [lruPushFront, mapInsert, hframe j hji]
        exact hj.2
      · simp only [lruPushFront, mapInsert, hframe j hji]
        exact he)
    refine ⟨?_, hout'.page⟩
    simp only [Function.update_of_ne hne]
    exact hout'.pins
  · intro k' hk'
    rcases eq_or_ne k' k with rfl | hne
    · simp only [Function.update_self]
      omega
    · simp only [Function.update_of_ne hne]
      exact h.unmarked k' hk'

/-- A dirty frame is written back. -/
theorem PoolInv.clean (h : PoolInv n w) {i : Nat} (hi : w.pool.InUse n i) :
    PoolInv n { w with
      pool := w.pool.setFrame i { w.pool.frames i with dirty := false }
      files := (w.files.write (w.pool.frames i).key (w.pool.frames i).buf .ok).1 } := by
  have hf := h.frame i hi
  have hpage (k : PageKey) : (w.files.write (w.pool.frames i).key (w.pool.frames i).buf .ok).1.page k =
      if k = (w.pool.frames i).key then (w.pool.frames i).buf else w.files.page k :=
    DataFiles.page_write hf.length k
  refine h.setFrame hi rfl rfl hi.2 ⟨hf.buf, hf.length, hf.pins, hf.bound, ?_, hf.ptr, ?_⟩
    (fun _ _ => rfl) (fun _ _ => rfl) (fun _ _ => rfl) (fun _ _ => rfl) ?_ ?_ (h.unmarked _)
  · simp only [DataFiles.pages_write hf.length hf.inFile]
    exact hf.inFile
  · right
    right
    simp only [hpage, if_true]
    exact hf.buf
  · intro k hk
    simp only [hpage, if_neg hk]
  · exact DataFiles.pages_write hf.length hf.inFile

/-- A frame is written back inside its file. -/
theorem PoolInv.writeBack_pages (h : PoolInv n w) {i : Nat} (hi : w.pool.InUse n i) (fd : Int) :
    (w.files.write (w.pool.frames i).key (w.pool.frames i).buf .ok).1.pages fd = w.files.pages fd :=
  DataFiles.pages_write (h.frame i hi).length (h.frame i hi).inFile fd

theorem PoolInv.evict_pages (h : PoolInv n w) {i : Nat} (hi : w.pool.InUse n i) (fd : Int) :
    (w.pool.evict w.files i .ok).2.pages fd = w.files.pages fd := by
  simp only [BufferPool.evict]
  split
  · exact h.writeBack_pages hi fd
  · rfl

/-- Eviction brings no page into the pool. -/
theorem evict_inUse {pool : BufferPool} {files : DataFiles} {i j : Nat} {io : IoResult}
    (h : (pool.evict files i io).1.InUse n j) :
    pool.InUse n j ∧ (pool.evict files i io).1.frames j = pool.frames j := by
  obtain ⟨hj, hv⟩ := h
  rcases eq_or_ne j i with rfl | hne
  · simp [BufferPool.evict, BufferPool.setFrame] at hv
  · have hframe : (pool.evict files i io).1.frames j = pool.frames j := by
      simp [BufferPool.evict, BufferPool.setFrame, lruRemove, mapRemove, hne]
    rw [hframe] at hv
    exact ⟨⟨hj, hv⟩, hframe⟩

/-- **A fetch** keeps the invariant; it fails only when every frame is pinned. -/
theorem PoolInv.fetch (h : PoolInv n w) (hn : 0 < n) (hn' : n < 2 ^ 30) {k : PageKey}
    (hin : k.pageId < w.files.pages k.fd) (hpins : w.pins k + 1 < 2 ^ 32)
    (hs : w.step (.fetch k) = some w') :
    PoolInv n w' ∧ ((w.fetched k).2.2 = none →
      ∀ i < n, w.pool.InUse n i ∧ 0 < (w.pool.frames i).pinCount) := by
  have hvictim := h.shape.findVictim w.files .ok
  cases hfind : w.pool.frameOf k with
  | some i =>
    obtain ⟨hi, hkey⟩ := (h.shape.frameOf_eq_some hn hn').mp hfind
    simp only [PoolWorld.step, PoolWorld.fetched, bufferPoolFetch, hfind, Option.some.injEq] at hs ⊢
    subst hs
    exact ⟨h.hit hi hkey hpins, fun hnone => by cases hnone⟩
  | none =>
    have hnew := (h.shape.frameOf_eq_none hn hn').mp hfind
    cases hv : w.pool.findVictim w.files .ok with
    | none =>
      rw [hv] at hvictim
      simp only [PoolWorld.step, PoolWorld.fetched, bufferPoolFetch, hfind, IoScript.ok_apply, hv,
        Option.some.injEq] at hs ⊢
      subst hs
      exact ⟨h, fun _ i hi => ⟨⟨hi, (hvictim i hi).1⟩, Nat.pos_of_ne_zero (hvictim i hi).2⟩⟩
    | some r =>
      obtain ⟨i, pool', files'⟩ := r
      rw [hv] at hvictim
      simp only [PoolWorld.step, PoolWorld.fetched, bufferPoolFetch, hfind, IoScript.ok_apply, hv,
        Option.some.injEq] at hs ⊢
      subst hs
      refine ⟨?_, fun hnone => by cases hnone⟩
      obtain ⟨hi, hfree, rfl, rfl⟩ | ⟨hi, hpin, hev⟩ := hvictim
      · exact h.load hn hn' hi hfree hnew hin
      · obtain ⟨rfl, rfl⟩ := Prod.mk.inj hev
        refine (h.evict hn hn' hi hpin).load hn hn' hi.1 ?_ ?_ ?_
        · simp [BufferPool.evict, BufferPool.setFrame]
        · intro j hj
          obtain ⟨hj', hframe⟩ : w.pool.InUse n j ∧
              (w.pool.evict w.files i .ok).1.frames j = w.pool.frames j := evict_inUse hj
          exact fun hk => hnew j hj' (hframe ▸ hk)
        · simp only [h.evict_pages hi]
          exact hin

/-- After a fetch the client's pointer leads to the bytes of the memory. -/
theorem PoolInv.fetched_bytes (h : PoolInv n w) (hn : 0 < n) (hn' : n < 2 ^ 30) {k : PageKey}
    (hin : k.pageId < w.files.pages k.fd) (hpins : w.pins k + 1 < 2 ^ 32) {i : Nat}
    (hi : (w.fetched k).2.2 = some i) : ((w.fetched k).1.frames i).buf = w.mem k := by
  have hs : w.step (.fetch k) = some { w with
      pool := (w.fetched k).1, files := (w.fetched k).2.1
      pins := Function.update w.pins k (w.pins k + 1), ptr := Function.update w.ptr k i } := by
    simp only [PoolWorld.step, hi]
  obtain ⟨hinv, -⟩ := h.fetch hn hn' hin hpins hs
  obtain ⟨j, hptr, hj, hkey⟩ := hinv.pinned (k := k) (by simp)
  simp only [Function.update_self] at hptr
  subst hptr
  have hbuf := (hinv.frame i hj).buf
  rwa [hkey] at hbuf

theorem PoolInv.flushPage (h : PoolInv n w) (hn : 0 < n) (hn' : n < 2 ^ 30) {k : PageKey}
    (hs : w.step (.flushPage k) = some w') : PoolInv n w' := by
  cases hfind : w.pool.frameOf k with
  | none =>
    simp only [PoolWorld.step, bufferPoolFlushPage, hfind, Option.some.injEq] at hs
    subst hs
    exact h
  | some i =>
    obtain ⟨hi, -⟩ := (h.shape.frameOf_eq_some hn hn').mp hfind
    simp only [PoolWorld.step, bufferPoolFlushPage, hfind, DataFiles.write_ok, if_true] at hs
    split at hs
    · cases hs
      exact h.clean hi
    · cases hs
      exact h

/-- The flush loop after `m` frames: the invariant holds and these frames are clean. -/
theorem PoolInv.flushFrames (h : PoolInv n w) (m : Nat) (hm : m ≤ n) :
    PoolInv n { w with
        pool := ((List.range m).foldl (flushFrame IoScript.ok) (w.pool, w.files, true)).1
        files := ((List.range m).foldl (flushFrame IoScript.ok) (w.pool, w.files, true)).2.1 } ∧
      ∀ i < m, ((List.range m).foldl (flushFrame IoScript.ok) (w.pool, w.files, true)).1.InUse n i →
        (((List.range m).foldl (flushFrame IoScript.ok) (w.pool, w.files, true)).1.frames i).dirty =
          false := by
  induction m with
  | zero => exact ⟨h, fun i hi => absurd hi (Nat.not_lt_zero i)⟩
  | succ m ih =>
    obtain ⟨hinv, hclean⟩ := ih (by omega)
    rw [List.range_succ, List.foldl_append, List.foldl_cons, List.foldl_nil]
    generalize (List.range m).foldl (flushFrame IoScript.ok) (w.pool, w.files, true) = s at hinv hclean ⊢
    unfold flushFrame
    by_cases hdirty : ((s.1.frames m).valid && (s.1.frames m).dirty) = true
    · have hvalid := (Bool.and_eq_true _ _).mp hdirty
      simp only [hdirty, if_true, IoScript.ok_apply, DataFiles.write_ok]
      refine ⟨hinv.clean ⟨by omega, hvalid.1⟩, fun i hi huse => ?_⟩
      rcases eq_or_ne i m with rfl | hne
      · simp [BufferPool.setFrame]
      · have hframe : (s.1.setFrame m { s.1.frames m with dirty := false }).frames i =
            s.1.frames i := by
          simp [BufferPool.setFrame, hne]
        rw [hframe]
        exact hclean i (by omega) ⟨huse.1, hframe ▸ huse.2⟩
    · simp only [if_neg hdirty]
      refine ⟨hinv, fun i hi huse => ?_⟩
      rcases eq_or_ne i m with rfl | hne
      · rw [huse.2, Bool.true_and, Bool.not_eq_true] at hdirty
        exact hdirty
      · exact hclean i (by omega) huse

/-- No file gets longer. -/
theorem PoolInv.flushFrames_pages (h : PoolInv n w) (m : Nat) (hm : m ≤ n) (fd : Int) :
    ((List.range m).foldl (flushFrame IoScript.ok) (w.pool, w.files, true)).2.1.pages fd =
      w.files.pages fd := by
  induction m with
  | zero => rfl
  | succ m ih =>
    have hrest := ih (by omega)
    obtain ⟨hinv, -⟩ := h.flushFrames m (by omega)
    rw [List.range_succ, List.foldl_append, List.foldl_cons, List.foldl_nil]
    generalize (List.range m).foldl (flushFrame IoScript.ok) (w.pool, w.files, true) = s at hinv hrest ⊢
    unfold flushFrame
    by_cases hdirty : ((s.1.frames m).valid && (s.1.frames m).dirty) = true
    · have hvalid := (Bool.and_eq_true _ _).mp hdirty
      simp only [hdirty, if_true, IoScript.ok_apply, DataFiles.write_ok]
      rw [← hrest]
      exact hinv.writeBack_pages ⟨by omega, hvalid.1⟩ fd
    · simp only [if_neg hdirty]
      exact hrest

/-- **A flush of everything** keeps the invariant and leaves no dirty frame. -/
theorem PoolInv.flushAll (h : PoolInv n w) (hs : w.step .flushAll = some w') :
    PoolInv n w' ∧ ∀ i, w'.pool.InUse n i → (w'.pool.frames i).dirty = false := by
  simp only [PoolWorld.step, bufferPoolFlushAll, h.shape.numFrames, Option.some.injEq] at hs
  subst hs
  obtain ⟨hinv, hclean⟩ := h.flushFrames n (Nat.le_refl n)
  exact ⟨hinv, fun i hi => hclean i hi.1 hi⟩

/-- A new page that is not cached. -/
theorem PoolInv.alloc (h : PoolInv n w) (hn : 0 < n) (hn' : n < 2 ^ 30) {fd : Int} {recordSize : Nat}
    (hb : w.Bounded (.alloc fd recordSize)) (hs : w.step (.alloc fd recordSize) = some w') :
    PoolInv n w' := by
  rcases Nat.eq_zero_or_pos recordSize with rfl | hpos
  · simp only [PoolWorld.step, pageAlloc, if_true, Function.update_eq_self, Option.some.injEq] at hs
    subst hs
    exact h
  · have hne : recordSize ≠ 0 := by omega
    have hle : pageGetCount (w.files fd) ≤ w.files.pages fd := Nat.mod_le _ _
    have hnew : ∀ i, w.pool.InUse n i → (w.pool.frames i).key ≠ ⟨fd, pageGetCount (w.files fd)⟩ := by
      rcases hb with hfew | hnone
      · intro i hi he
        have hin := (h.frame i hi).inFile
        have hcount : pageGetCount (w.files fd) = w.files.pages fd := Nat.mod_eq_of_lt hfew
        rw [he, hcount] at hin
        exact absurd hin (Nat.lt_irrefl _)
      · exact (h.shape.frameOf_eq_none hn hn').mp hnone
    have hmade : w' = { w with
        files := (w.files.write ⟨fd, pageGetCount (w.files fd)⟩
          (pageInitHeader (pageGetCount (w.files fd)) recordSize) .ok).1
        mem := Function.update w.mem ⟨fd, pageGetCount (w.files fd)⟩
          (pageInitHeader (pageGetCount (w.files fd)) recordSize) } := by
      simp only [PoolWorld.step, pageAlloc, if_neg hne, Option.some.injEq] at hs
      exact hs.symm
    subst hmade
    generalize pageGetCount (w.files fd) = newId at hle hnew ⊢
    have hlen := length_pageInitHeader newId recordSize
    have hpages (fd' : Int) : (w.files.write ⟨fd, newId⟩ (pageInitHeader newId recordSize) .ok).1.pages fd' =
        if fd' = fd then max (w.files.pages fd) (newId + 1) else w.files.pages fd' :=
      DataFiles.pages_write_le hlen hle fd'
    refine ⟨h.shape, fun i hi => ?_, fun k hk => ?_, h.unmarked⟩
    · have hk := hnew i hi
      refine (h.frame i hi).congr (Function.update_of_ne hk _ _) rfl rfl rfl ?_ ?_
      · simp only [DataFiles.page_write hlen, if_neg hk]
      · simp only [hpages]
        split
        · rename_i hfd
          rw [hfd]
          exact Nat.le_max_left _ _
        · exact Nat.le_refl _
    · have hout := h.out k hk
      refine ⟨hout.pins, fun hin => ?_⟩
      simp only [DataFiles.page_write hlen]
      rcases eq_or_ne k ⟨fd, newId⟩ with rfl | hkn
      · simp
      · simp only [if_neg hkn, Function.update_of_ne hkn]
        apply hout.page
        simp only [hpages] at hin
        split at hin
        · rename_i hfd
          have hid : k.pageId ≠ newId := by
            intro hid
            apply hkn
            cases k
            simp_all
          rw [hfd]
          omega
        · exact hin

/-- **Every permitted step** keeps the invariant. -/
theorem poolInv_step (hn : 0 < n) (hn' : n < 2 ^ 30) {op : PoolOp} (h : PoolInv n w)
    (hperm : w.Permitted op) (hb : w.Bounded op) (hs : w.step op = some w') : PoolInv n w' := by
  cases op with
  | fetch k =>
    have hin : k.pageId < w.files.pages k.fd :=
      Nat.lt_of_lt_of_le hperm.1 (Nat.mod_le _ _)
    exact (h.fetch hn hn' hin hperm.2 hs).1
  | write k page => exact h.write hperm.1 hperm.2 hs
  | markDirty k => exact h.markDirty hn hn' hperm hs
  | unpin k => exact h.unpin hn hn' hperm.1 hperm.2 hs
  | flushPage k => exact h.flushPage hn hn' hs
  | flushAll => exact (h.flushAll hs).1
  | alloc fd recordSize => exact h.alloc hn hn' hb hs

/-- A new pool beside its files. -/
theorem poolInv_init (hn' : n < 2 ^ 30) (files : DataFiles) : PoolInv n (PoolWorld.init n files) where
  shape := poolShape_create hn'
  frame := by
    rintro i ⟨-, hv⟩
    cases hv
  out := fun k _ => ⟨rfl, fun _ => rfl⟩
  unmarked := by
    intro k hk
    cases hk

end Invariant

/-- A step that clients may take, where a new page is not one that the pool has. -/
def PoolWorld.Orderly (w : PoolWorld) (op : PoolOp) : Prop := w.Permitted op ∧ w.Bounded op

/-- **The buffer pool is transparent.**  In every state of every run a fetch of an existing page
returns the bytes of a memory without any cache, or finds every frame pinned; and a flush leaves in
the files the bytes of every page that nobody is about to mark. -/
theorem pool_transparent {n : Nat} (hn : 0 < n) (hn' : n < 2 ^ 30) (files : DataFiles)
    {w : PoolWorld} (h : Reachable PoolWorld.step PoolWorld.Orderly (PoolWorld.init n files) w) :
    (∀ k, w.Permitted (.fetch k) →
      (∀ i, (w.fetched k).2.2 = some i → ((w.fetched k).1.frames i).buf = w.mem k) ∧
      ((w.fetched k).2.2 = none → ∀ i < n, 0 < (w.pool.frames i).pinCount)) ∧
    ∀ w', w.step .flushAll = some w' → ∀ k : PageKey, k.pageId < w'.files.pages k.fd →
      w'.unmarked k = false → w'.files.page k = w'.mem k := by
  have hinv : PoolInv n w := h.invariant (poolInv_init hn' files)
    (fun _ _ _ hi hok hs => poolInv_step hn hn' hi hok.1 hok.2 hs)
  constructor
  · intro k hk
    have hin : k.pageId < w.files.pages k.fd := Nat.lt_of_lt_of_le hk.1 (Nat.mod_le _ _)
    refine ⟨fun i hi => hinv.fetched_bytes hn hn' hin hk.2 hi, ?_⟩
    obtain ⟨w', hs⟩ : ∃ w', w.step (.fetch k) = some w' := ⟨_, rfl⟩
    exact fun hnone i hi => ((hinv.fetch hn hn' hin hk.2 hs).2 hnone i hi).2
  · intro w' hs k hin hmarked
    obtain ⟨hinv', hclean⟩ := hinv.flushAll hs
    by_cases hcached : ∃ i, w'.pool.InUse n i ∧ (w'.pool.frames i).key = k
    · obtain ⟨i, hi, rfl⟩ := hcached
      have hcase := (hinv'.frame i hi).clean
      rw [hclean i hi, hmarked] at hcase
      simpa using hcase
    · push Not at hcached
      exact (hinv'.out k hcached).page hin

/-! ## Too many pages -/

/-- Page 0 of file 3. -/
def firstPage : PageKey := ⟨3, 0⟩

/-- A page of sevens. -/
def sevens : Bytes := List.replicate PAGE_SIZE 7

section FirstPage

variable {file : Bytes} {ok : PoolWorld → PoolOp → Prop}

/-- A pool of one frame that has just loaded the first page. -/
def loadedPool (file : Bytes) : BufferPool :=
  (((bufferPoolCreate 1).setFrame 0 ⟨pageRead file 0, firstPage, 1, false, true⟩).mapInsert
    firstPage 0).lruPushFront 0

theorem loadedPool_frame : (loadedPool file).frames 0 = ⟨pageRead file 0, firstPage, 1, false, true⟩ := by
  simp [loadedPool, BufferPool.setFrame, mapInsert, lruPushFront]

theorem frameOf_setFrame (pool : BufferPool) (i : Nat) (f : Frame) (k : PageKey) :
    (pool.setFrame i f).frameOf k = pool.frameOf k := rfl

theorem setFrame_self (pool : BufferPool) (i : Nat) (f : Frame) :
    (pool.setFrame i f).frames i = f := Function.update_self _ _ _

theorem setFrame_setFrame (pool : BufferPool) (i : Nat) (f g : Frame) :
    (pool.setFrame i f).setFrame i g = pool.setFrame i g := by
  simp only [BufferPool.setFrame, Function.update_idem]

theorem loadedPool_frameOf : (loadedPool file).frameOf firstPage = some 0 := by
  have hnew : PoolShape 1 (bufferPoolCreate 1) := poolShape_create (by decide)
  have hload : PoolShape 1 (loadedPool file) := by
    refine hnew.load Nat.one_pos (by decide) Nat.one_pos rfl rfl rfl ?_
    rintro j ⟨-, hv⟩
    cases hv
  rw [hload.frameOf_eq_some Nat.one_pos (by decide), InUse, loadedPool_frame]
  exact ⟨⟨Nat.one_pos, rfl⟩, rfl⟩

theorem fetch_firstPage : bufferPoolFetch (bufferPoolCreate 1) (fun _ => file) firstPage IoScript.ok =
    (loadedPool file, fun _ => file, some 0) := by
  have hnone : (bufferPoolCreate 1).frameOf firstPage = none := by
    rw [(poolShape_create (by decide)).frameOf_eq_none Nat.one_pos (by decide)]
    rintro i ⟨-, hv⟩
    cases hv
  have hfree : (bufferPoolCreate 1).findVictim (fun _ => file) .ok =
      some (0, bufferPoolCreate 1, fun _ => file) := rfl
  simp only [bufferPoolFetch, hnone, IoScript.ok_apply, hfree]
  rfl

/-- The world when a client has filled the first page with sevens and let go of it. -/
def filledWorld (file : Bytes) : PoolWorld where
  pool := (loadedPool file).setFrame 0 ⟨sevens, firstPage, 0, true, true⟩
  files := fun _ => file
  mem := Function.update (DataFiles.page fun _ => file) firstPage sevens
  pins := Function.update (fun _ => 0) firstPage 0
  unmarked := Function.update (fun _ => false) firstPage false
  ptr := Function.update (fun _ => 0) firstPage 0

/-- It is reached by a fetch, a write, a mark and an unpin. -/
theorem reachable_filledWorld (hok : ∀ w op, w.Permitted op → w.Bounded op → ok w op)
    (hfile : 0 < pageGetCount file) :
    Reachable PoolWorld.step ok (PoolWorld.init 1 (fun _ => file)) (filledWorld file) := by
  have hone : (0 : Nat) + 1 < 2 ^ 32 := by decide
  have hfetch : Reachable PoolWorld.step ok (PoolWorld.init 1 (fun _ => file))
      { filledWorld file with
        pool := loadedPool file
        mem := DataFiles.page fun _ => file
        pins := Function.update (fun _ => 0) firstPage 1 } := by
    refine Reachable.refl.tail (.fetch firstPage) (hok _ _ ⟨hfile, hone⟩ trivial) ?_
    simp [PoolWorld.step, PoolWorld.fetched, PoolWorld.init, fetch_firstPage, filledWorld]
  have hwrite : Reachable PoolWorld.step ok (PoolWorld.init 1 (fun _ => file))
      { filledWorld file with
        pool := (loadedPool file).setFrame 0 ⟨sevens, firstPage, 1, false, true⟩
        pins := Function.update (fun _ => 0) firstPage 1
        unmarked := Function.update (fun _ => false) firstPage true } := by
    refine hfetch.tail (.write firstPage sevens) (hok _ _ ⟨?_, List.length_replicate⟩ trivial) ?_
    · simp
    · simp [PoolWorld.step, filledWorld, loadedPool_frame]
  have hmark : Reachable PoolWorld.step ok (PoolWorld.init 1 (fun _ => file))
      { filledWorld file with
        pool := (loadedPool file).setFrame 0 ⟨sevens, firstPage, 1, true, true⟩
        pins := Function.update (fun _ => 0) firstPage 1 } := by
    refine hwrite.tail (.markDirty firstPage) (hok _ _ ?_ trivial) ?_
    · simp [PoolWorld.Permitted]
    · simp [PoolWorld.step, filledWorld, bufferPoolMarkDirty, frameOf_setFrame, loadedPool_frameOf,
        setFrame_setFrame, setFrame_self]
  refine hmark.tail (.unpin firstPage) (hok _ _ ⟨?_, ?_⟩ trivial) ?_
  · simp
  · simp [filledWorld]
  · simp [PoolWorld.step, filledWorld, bufferPoolUnpin, frameOf_setFrame, loadedPool_frameOf,
      setFrame_setFrame, setFrame_self]

end FirstPage

/-- A file of one page of zeros, whose page has been filled: a fetch returns the sevens. -/
theorem filled_page_transparent : ((filledWorld zeroPage).fetched firstPage).2.2 = some 0 ∧
    (((filledWorld zeroPage).fetched firstPage).1.frames 0).buf = sevens := by
  have hcount : 0 < pageGetCount zeroPage := by
    rw [pageGetCount, zeroPage, List.length_replicate]
    decide
  have hreach : Reachable PoolWorld.step PoolWorld.Orderly (PoolWorld.init 1 fun _ => zeroPage)
      (filledWorld zeroPage) := reachable_filledWorld (fun _ _ hp hb => ⟨hp, hb⟩) hcount
  have hperm : (filledWorld zeroPage).Permitted (.fetch firstPage) := by
    refine ⟨hcount, ?_⟩
    simp [filledWorld]
  have hmem : (filledWorld zeroPage).mem firstPage = sevens := by
    simp [filledWorld]
  have hframe : ((filledWorld zeroPage).fetched firstPage).2.2 = some 0 := by
    simp [PoolWorld.fetched, bufferPoolFetch, filledWorld, frameOf_setFrame, loadedPool_frameOf]
  refine ⟨hframe, ?_⟩
  rw [← hmem]
  exact ((pool_transparent (by decide) (by decide) _ hreach).1 firstPage hperm).1 0 hframe

section Overfull

variable {file : Bytes}

/-- A new page in a file of `count` pages, as `page_get_count` has it. -/
theorem step_alloc {w : PoolWorld} {fd : Int} {count : Nat} (hcount : pageGetCount (w.files fd) = count) :
    w.step (.alloc fd 64) = some { w with
      files := (w.files.write ⟨fd, count⟩ (pageInitHeader count 64) .ok).1
      mem := Function.update w.mem ⟨fd, count⟩ (pageInitHeader count 64) } := by
  subst hcount
  rfl

/-- Two new pages in a file of `2 ^ 32 - 1` pages: the second is page 0, which the pool has as filled
and has yet to write back. -/
theorem alloc_wraps (hfile : file.length = (2 ^ 32 - 1) * PAGE_SIZE) :
    ∃ w, Reachable PoolWorld.step PoolWorld.Permitted (PoolWorld.init 1 fun _ => file) w ∧
      w.pool = (filledWorld file).pool ∧ w.mem firstPage = pageInitHeader 0 64 ∧
      w.unmarked firstPage = false ∧ 0 < w.files.pages 3 := by
  have hpages : (filledWorld file).files.pages 3 = 2 ^ 32 - 1 := by
    rw [show (filledWorld file).files.pages 3 = file.length / PAGE_SIZE from rfl, hfile]
    exact Nat.mul_div_cancel _ (by decide)
  have hcount : pageGetCount ((filledWorld file).files 3) = 2 ^ 32 - 1 := by
    rw [show pageGetCount ((filledWorld file).files 3) = (filledWorld file).files.pages 3 % 2 ^ 32
      from rfl, hpages]
    decide
  have hfilled : Reachable PoolWorld.step PoolWorld.Permitted (PoolWorld.init 1 fun _ => file)
      (filledWorld file) := by
    refine reachable_filledWorld (fun _ _ hp _ => hp) ?_
    rw [show pageGetCount file = 2 ^ 32 - 1 from hcount]
    decide
  have hfirst := hfilled.tail (PoolOp.alloc 3 64) trivial (step_alloc hcount)
  generalize hw : ({ filledWorld file with files := _, mem := _ } : PoolWorld) = w at hfirst
  have hpages' : w.files.pages 3 = 2 ^ 32 := by
    subst hw
    rw [DataFiles.pages_write_le (length_pageInitHeader _ _) (by rw [hpages]), if_pos rfl, hpages]
    decide
  have hcount' : pageGetCount (w.files 3) = 0 := by
    rw [show pageGetCount (w.files 3) = w.files.pages 3 % 2 ^ 32 from rfl, hpages']
    decide
  have hsecond := hfirst.tail (PoolOp.alloc 3 64) trivial (step_alloc hcount')
  refine ⟨_, hsecond, ?_, ?_, ?_, ?_⟩
  · subst hw
    rfl
  · simp [firstPage]
  · subst hw
    simp [filledWorld]
  · simp only
    rw [DataFiles.pages_write (length_pageInitHeader _ _) (by rw [hpages']; decide), hpages']
    decide

/-- A flush writes the filled page. -/
theorem flushAll_filled {w : PoolWorld} (hpool : w.pool = (filledWorld file).pool) :
    (bufferPoolFlushAll w.pool w.files IoScript.ok).2.1 = (w.files.write firstPage sevens .ok).1 := by
  rw [hpool, bufferPoolFlushAll]
  rw [show (filledWorld file).pool.numFrames = 1 from rfl, List.range_one, List.foldl_cons,
    List.foldl_nil, flushFrame]
  simp [filledWorld, setFrame_self, DataFiles.write_ok]

end Overfull

/-- The memory has the new page, and a flush leaves the old one in the file. -/
theorem alloc_overwrites_cached :
    ∃ (files : DataFiles) (w w' : PoolWorld) (k : PageKey),
      Reachable PoolWorld.step PoolWorld.Permitted (PoolWorld.init 1 files) w ∧
      w.step .flushAll = some w' ∧ k.pageId < w'.files.pages k.fd ∧ w'.unmarked k = false ∧
      w'.files.page k ≠ w'.mem k := by
  obtain ⟨w, hw, hpool, hmem, hmarked, hpages⟩ :=
    alloc_wraps (List.length_replicate : (List.replicate _ (0 : UInt8)).length = (2 ^ 32 - 1) * PAGE_SIZE)
  have hsevens : sevens.length = PAGE_SIZE := List.length_replicate
  refine ⟨_, w, _, firstPage, hw, rfl, ?_, hmarked, ?_⟩
  · simp only [flushAll_filled hpool]
    rw [DataFiles.pages_write hsevens hpages]
    exact hpages
  · simp only [flushAll_filled hpool, hmem]
    rw [DataFiles.page_write hsevens, if_pos rfl]
    intro h
    have hhead : some (7 : UInt8) = some 0 := congrArg List.head? h
    exact absurd hhead (by decide)

end Ticketing
