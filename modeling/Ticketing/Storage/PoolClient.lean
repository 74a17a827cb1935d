import Ticketing.Storage.BufferPoolCache

/-!
# One client of the buffer pool

The table layer holds one page at a time.  `Quiet` is the pool between two of its visits, `Held` the
pool while it has a page; each lemma below says what one call does to them.

* `Quiet.fetch`, `Held.write`, `Held.markDirty`, `Held.unpin` — a visit.
* `Quiet.alloc`, `Quiet.flushAll` — a new page, and the flush of all tables.
* `DirtyIn` — the files that the pool has yet to write to, with one lemma for each call of a visit.
-/

set_option autoImplicit false

namespace Ticketing

open BufferPool

/-- Nobody has a page pinned. -/
def Quiet (n : Nat) (pool : BufferPool) (files : DataFiles) (mem : PageKey → Bytes) : Prop :=
  PoolInv n ⟨pool, files, mem, fun _ => 0, fun _ => false, fun _ => 0⟩

/-- The client has page `k` pinned in frame `i`, perhaps with a write that it has yet to mark. -/
def Held (n : Nat) (pool : BufferPool) (files : DataFiles) (mem : PageKey → Bytes) (k : PageKey)
    (i : Nat) (unmarked : Bool) : Prop :=
  PoolInv n ⟨pool, files, mem, Function.update (fun _ => 0) k 1,
    Function.update (fun _ => false) k unmarked, Function.update (fun _ => 0) k i⟩

section Client

variable {n : Nat} {pool : BufferPool} {files : DataFiles} {mem : PageKey → Bytes} {k : PageKey}
  {i : Nat} {unmarked : Bool}

theorem quiet_create (hn' : n < 2 ^ 30) (files : DataFiles) :
    Quiet n (bufferPoolCreate n) files files.page := poolInv_init hn' files

/-- A fetch leaves the lengths of the files. -/
theorem PoolInv.fetch_pages {w : PoolWorld} (h : PoolInv n w) (k : PageKey) (fd : Int) :
    (w.fetched k).2.1.pages fd = w.files.pages fd := by
  have hvictim := h.shape.findVictim w.files .ok
  unfold PoolWorld.fetched bufferPoolFetch
  cases hfind : w.pool.frameOf k with
  | some i => rfl
  | none =>
    cases hv : w.pool.findVictim w.files .ok with
    | none => simp only [IoScript.ok_apply, hv]
    | some r =>
      obtain ⟨i, pool', files'⟩ := r
      rw [hv] at hvictim
      simp only [IoScript.ok_apply, hv]
      obtain ⟨-, -, -, rfl⟩ | ⟨hi, -, hev⟩ := hvictim
      · rfl
      · rw [(Prod.mk.inj hev).2]
        exact h.evict_pages hi fd

/-- **A fetch** of an existing page succeeds: no frame is pinned. -/
theorem Quiet.fetch (h : Quiet n pool files mem) (hn : 0 < n) (hn' : n < 2 ^ 30)
    (hin : k.pageId < files.pages k.fd) :
    ∃ pool' files' i, bufferPoolFetch pool files k IoScript.ok = (pool', files', some i) ∧
      Held n pool' files' mem k i false ∧ (pool'.frames i).buf = mem k ∧
      ∀ fd, files'.pages fd = files.pages fd := by
  let w : PoolWorld := ⟨pool, files, mem, fun _ => 0, fun _ => false, fun _ => 0⟩
  have hinv : PoolInv n w := h
  have hpins : w.pins k + 1 < 2 ^ 32 := show 0 + 1 < 2 ^ 32 by decide
  have hpages := hinv.fetch_pages k
  cases hres : (w.fetched k).2.2 with
  | none =>
    have hs : w.step (.fetch k) = some { w with pool := (w.fetched k).1, files := (w.fetched k).2.1 } := by
      simp only [PoolWorld.step, hres]
    obtain ⟨-, hfail⟩ := hinv.fetch hn hn' hin hpins hs
    -- the first frame is pinned, but nobody pins a page
    obtain ⟨hi, hpin⟩ := hfail hres 0 hn
    rw [(hinv.frame 0 hi).pins] at hpin
    exact absurd hpin (Nat.lt_irrefl _)
  | some i =>
    have hs : w.step (.fetch k) = some { w with
        pool := (w.fetched k).1, files := (w.fetched k).2.1
        pins := Function.update w.pins k (w.pins k + 1), ptr := Function.update w.ptr k i } := by
      simp only [PoolWorld.step, hres]
    obtain ⟨hheld, -⟩ := hinv.fetch hn hn' hin hpins hs
    refine ⟨_, _, i, Prod.ext rfl (Prod.ext rfl hres), ?_, hinv.fetched_bytes hn hn' hin hpins hres, hpages⟩
    have hmarks : Function.update (fun _ : PageKey => false) k false = fun _ => false :=
      Function.update_eq_self _ _
    unfold Held
    rw [hmarks]
    exact hheld

/-- A write through the pointer. -/
theorem Held.write (h : Held n pool files mem k i unmarked) {page : Bytes}
    (hpage : page.length = PAGE_SIZE) :
    Held n (pool.setFrame i { pool.frames i with buf := page }) files (Function.update mem k page) k i
      true := by
  have hpins : 0 < Function.update (fun _ : PageKey => 0) k 1 k := by
    rw [Function.update_self]
    exact Nat.one_pos
  have hw := PoolInv.write h (k := k) hpins hpage rfl
  simp only [Function.update_self, Function.update_idem] at hw
  exact hw

theorem Held.markDirty (h : Held n pool files mem k i unmarked) (hn : 0 < n) (hn' : n < 2 ^ 30) :
    Held n (bufferPoolMarkDirty pool k) files mem k i false := by
  have hpins : 0 < Function.update (fun _ : PageKey => 0) k 1 k := by
    rw [Function.update_self]
    exact Nat.one_pos
  have hw := PoolInv.markDirty h hn hn' (k := k) hpins rfl
  simp only [Function.update_idem] at hw
  exact hw

theorem Held.unpin (h : Held n pool files mem k i false) (hn : 0 < n) (hn' : n < 2 ^ 30) :
    Quiet n (bufferPoolUnpin pool k) files mem := by
  have hpins : 0 < Function.update (fun _ : PageKey => 0) k 1 k := by
    rw [Function.update_self]
    exact Nat.one_pos
  have hw := PoolInv.unpin h hn hn' (k := k) hpins (by simp) rfl
  simp only [Function.update_self, Function.update_idem, Nat.sub_self] at hw
  have hzero : Function.update (fun _ : PageKey => 0) k 0 = fun _ => 0 := Function.update_eq_self _ _
  have hfalse : Function.update (fun _ : PageKey => false) k false = fun _ => false :=
    Function.update_eq_self _ _
  rw [hzero, hfalse] at hw
  -- without pins it does not matter what the client points to
  refine ⟨hw.shape, fun j hj => ?_, fun k' hk' => ⟨(hw.out k' hk').pins, (hw.out k' hk').page⟩, hw.unmarked⟩
  have hf := hw.frame j hj
  exact ⟨hf.buf, hf.length, hf.pins, hf.bound, hf.inFile, fun hp => absurd hp (Nat.lt_irrefl _), hf.clean⟩

/-- **A new page** at the end of a file of fewer than `2 ^ 32` pages. -/
theorem Quiet.alloc (h : Quiet n pool files mem) (hn : 0 < n) (hn' : n < 2 ^ 30) {fd : Int}
    {recordSize : Nat} (hsize : recordSize ≠ 0) (hfew : files.pages fd < 2 ^ 32) :
    ∃ file, pageAlloc (files fd) recordSize .ok = (file, files.pages fd) ∧
      Quiet n pool (Function.update files fd file)
        (Function.update mem ⟨fd, files.pages fd⟩ (pageInitHeader (files.pages fd) recordSize)) ∧
      ∀ fd', DataFiles.pages (Function.update files fd file) fd' =
        if fd' = fd then files.pages fd + 1 else files.pages fd' := by
  have hcount : pageGetCount (files fd) = files.pages fd := Nat.mod_eq_of_lt hfew
  have hbound : PoolWorld.Bounded ⟨pool, files, mem, fun _ => 0, fun _ => false, fun _ => 0⟩
      (.alloc fd recordSize) :=
    Or.inl hfew
  have hw := PoolInv.alloc h hn hn' hbound rfl
  refine ⟨_, by rw [pageAlloc, if_neg hsize, hcount]; rfl, ?_, fun fd' => ?_⟩
  · simp only [if_neg hsize, hcount, pageAlloc] at hw
    exact hw
  · unfold DataFiles.pages
    rcases eq_or_ne fd' fd with rfl | hne
    · rw [Function.update_self, if_pos rfl]
      exact pages_pageAlloc (length_pageInitHeader _ _)
    · rw [Function.update_of_ne hne, if_neg hne]

/-- **A flush** leaves the bytes of the memory on disk, and no dirty frame. -/
theorem Quiet.flushAll (h : Quiet n pool files mem) {r : BufferPool × DataFiles × Bool}
    (hr : bufferPoolFlushAll pool files IoScript.ok = r) :
    Quiet n r.1 r.2.1 mem ∧ (∀ fd, r.2.1.pages fd = files.pages fd) ∧
      (∀ i, r.1.InUse n i → (r.1.frames i).dirty = false) ∧
      ∀ k : PageKey, k.pageId < r.2.1.pages k.fd → r.2.1.page k = mem k := by
  obtain ⟨hinv, hclean⟩ := PoolInv.flushAll h rfl
  simp only [hr] at hinv hclean
  refine ⟨hinv, fun fd => ?_, hclean, fun k hin => ?_⟩
  · have hpages := PoolInv.flushFrames_pages h n (Nat.le_refl n) fd
    rw [← hr, bufferPoolFlushAll, h.shape.numFrames]
    exact hpages
  · by_cases hcached : ∃ i, r.1.InUse n i ∧ (r.1.frames i).key = k
    · obtain ⟨i, hi, rfl⟩ := hcached
      have hcase := (hinv.frame i hi).clean
      rw [hclean i hi] at hcase
      simpa using hcase
    · push Not at hcached
      exact (hinv.out k hcached).page hin

end Client

/-! ## Pages that wait to be written -/

/-- Only pages of the files in `S` wait to be written. -/
def DirtyIn (n : Nat) (S : Int → Prop) (pool : BufferPool) : Prop :=
  ∀ i, pool.InUse n i → (pool.frames i).dirty = true → S (pool.frames i).key.fd

section Dirty

variable {n : Nat} {S : Int → Prop} {pool : BufferPool} {files : DataFiles}

theorem DirtyIn.frames {pool' : BufferPool} (h : DirtyIn n S pool) (hframes : pool'.frames = pool.frames) :
    DirtyIn n S pool' := by
  intro i hi hd
  rw [hframes] at hd ⊢
  exact h i ⟨hi.1, hframes ▸ hi.2⟩ hd

theorem DirtyIn.setFrame (h : DirtyIn n S pool) (i : Nat) {f : Frame}
    (hf : i < n → f.valid = true → f.dirty = true → S f.key.fd) : DirtyIn n S (pool.setFrame i f) := by
  intro j hj hd
  rcases eq_or_ne j i with rfl | hne
  · have hself : (pool.setFrame j f).frames j = f := Function.update_self _ _ _
    have hvalid := hj.2
    rw [hself] at hvalid hd ⊢
    exact hf hj.1 hvalid hd
  · have hother : (pool.setFrame i f).frames j = pool.frames j := Function.update_of_ne hne _ _
    rw [hother] at hd ⊢
    exact h j ⟨hj.1, hother ▸ hj.2⟩ hd

/-- A frame that was in use keeps its page and its mark. -/
theorem DirtyIn.keepFrame (h : DirtyIn n S pool) (i : Nat) {f : Frame} (hkey : f.key = (pool.frames i).key)
    (hvalid : f.valid = (pool.frames i).valid) (hdirty : f.dirty = (pool.frames i).dirty) :
    DirtyIn n S (pool.setFrame i f) := by
  refine h.setFrame i fun hi hv hd => ?_
  rw [hkey]
  exact h i ⟨hi, hvalid ▸ hv⟩ (hdirty ▸ hd)

theorem DirtyIn.fetch (h : DirtyIn n S pool) (k : PageKey) (io : IoScript) :
    DirtyIn n S (bufferPoolFetch pool files k io).1 := by
  unfold bufferPoolFetch
  cases pool.frameOf k with
  | some i =>
    have hpinned := h.keepFrame i
      (f := { pool.frames i with pinCount := ((pool.frames i).pinCount + 1) % 2 ^ 32 }) rfl rfl rfl
    exact hpinned.frames rfl
  | none =>
    cases hv : pool.findVictim files (io 0) with
    | none => exact h
    | some r =>
      obtain ⟨i, pool', files'⟩ := r
      have hfreed : DirtyIn n S pool' := by
        unfold findVictim at hv
        split at hv
        · cases hv
          exact h
        · obtain ⟨j, -, hj⟩ := Option.map_eq_some_iff.mp hv
          obtain rfl : (pool.evict files j (io 0)).1 = pool' := congrArg (fun r => r.2.1) hj
          have hmoved : DirtyIn n S ((pool.mapRemove (pool.frames j).key).lruRemove j) := h.frames rfl
          exact hmoved.setFrame j fun _ hvalid _ => by cases hvalid
      simp only
      cases io 1 with
      | short m => exact hfreed
      | ok => exact (hfreed.setFrame i fun _ _ hd => by cases hd).frames rfl

theorem DirtyIn.markDirty (h : DirtyIn n S pool) (hshape : PoolShape n pool) (hn : 0 < n) (hn' : n < 2 ^ 30)
    {k : PageKey} (hk : S k.fd) : DirtyIn n S (bufferPoolMarkDirty pool k) := by
  unfold bufferPoolMarkDirty
  split
  · exact h
  · rename_i i hfind
    obtain ⟨-, hkey⟩ := (hshape.frameOf_eq_some hn hn').mp hfind
    refine h.setFrame i fun _ _ _ => ?_
    rw [hkey]
    exact hk

theorem DirtyIn.unpin (h : DirtyIn n S pool) (k : PageKey) : DirtyIn n S (bufferPoolUnpin pool k) := by
  unfold bufferPoolUnpin
  split
  · exact h
  · simp only
    split
    · exact h
    · exact h.keepFrame _ rfl rfl rfl

end Dirty

end Ticketing
