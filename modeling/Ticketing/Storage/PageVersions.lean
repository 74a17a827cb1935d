import Ticketing.Storage.BufferPoolCache
import Ticketing.Storage.Table

/-!
# The versions of the pages of one file

Whatever input and output fails, a page of a data file is at any time one of the versions that were
written into a frame, or a mixture of two that a torn write leaves.

* `Versions` — a property of pages that mixtures inherit, and the pages that are written at all.
* `FileInv` — every frame of the file and every page on disk is a version; one lemma for each call of
  the pool.
* `FileInv.visitPage` — so it is for every visit of the table layer that writes versions only.
-/

set_option autoImplicit false

namespace Ticketing

open Bytes BufferPool

/-- A mixture of two pages. -/
def Mixture (a b c : Bytes) : Prop := ∀ i < PAGE_SIZE, c.getD i 0 = a.getD i 0 ∨ c.getD i 0 = b.getD i 0

/-- What a page written to disk leaves at each place. -/
theorem pageRead_pageWrite (file : Bytes) {pageId : Nat} {page : Bytes} (h : page.length = PAGE_SIZE)
    (io : IoResult) (q : Nat) :
    Mixture (pageRead file q) (if q = pageId then page else pageRead file q)
      (pageRead (pageWrite file pageId page io).1 q) := by
  intro i hi
  rw [getD_pageRead _ _ hi, getD_pageRead _ _ hi]
  have hprefix : ∀ n, (pwrite (pageId * PAGE_SIZE) (page.take n) file).getD (q * PAGE_SIZE + i) 0 =
      file.getD (q * PAGE_SIZE + i) 0 ∨
      (pwrite (pageId * PAGE_SIZE) (page.take n) file).getD (q * PAGE_SIZE + i) 0 =
        (if q = pageId then page else pageRead file q).getD i 0 := by
    intro n
    rw [getD_pwrite]
    split
    · rename_i hin
      right
      rw [List.length_take] at hin
      have hq : q = pageId := by
        rcases Nat.lt_trichotomy q pageId with hlt | heq | hgt
        · have := Nat.mul_le_mul_right PAGE_SIZE (show q + 1 ≤ pageId by omega)
          rw [Nat.add_mul] at this
          omega
        · exact heq
        · have := Nat.mul_le_mul_right PAGE_SIZE (show pageId + 1 ≤ q by omega)
          rw [Nat.add_mul] at this
          omega
      subst hq
      rw [if_pos rfl, Nat.add_sub_cancel_left]
      simp only [List.getD_eq_getElem?_getD, List.getElem?_take]
      rw [if_pos (by omega)]
    · exact Or.inl rfl
  cases io with
  | ok =>
    have hall := hprefix PAGE_SIZE
    rw [List.take_of_length_le (by omega)] at hall
    exact hall
  | short n =>
    rw [pageWrite]
    split
    · exact Or.inl rfl
    · exact hprefix n

/-- A page that starts inside the file or at its end makes it at most one page longer. -/
theorem pages_pageWrite_torn {file : Bytes} {pageId : Nat} {page : Bytes}
    (h : page.length = PAGE_SIZE) (io : IoResult) (pages : Nat) (hle : pageId ≤ pages)
    (hfile : file.length / PAGE_SIZE = pages) :
    (pageWrite file pageId page io).1.length / PAGE_SIZE = pages ∨
      pageId = pages ∧ (pageWrite file pageId page io).1.length / PAGE_SIZE = pages + 1 := by
  have hprefix : ∀ n, (pwrite (pageId * PAGE_SIZE) (page.take n) file).length / PAGE_SIZE = pages ∨
      pageId = pages ∧ (pwrite (pageId * PAGE_SIZE) (page.take n) file).length / PAGE_SIZE = pages + 1 := by
    intro n
    rw [length_pwrite, List.length_take]
    simp only [PAGE_SIZE] at h hfile ⊢
    omega
  cases io with
  | ok =>
    have hall := hprefix PAGE_SIZE
    rw [List.take_of_length_le (by omega)] at hall
    exact hall
  | short n =>
    rw [pageWrite]
    split
    · exact Or.inl hfile
    · exact hprefix n

/-- Which bytes a page may have, and which pages may be written. -/
structure Versions where
  version : Nat → Bytes → Prop
  written : Nat → Prop
  mixture : ∀ {q a b c}, version q a → version q b → c.length = PAGE_SIZE → Mixture a b c → version q c

/-- A frame of the file. -/
structure FrameVersion (v : Versions) (f : Frame) : Prop where
  length : f.buf.length = PAGE_SIZE
  version : v.version f.key.pageId f.buf
  written : f.dirty = true → v.written f.key.pageId

/-- All frames of a file, and the file, which had `pages` whole pages at first. -/
structure FileInv (n : Nat) (fd : Int) (v : Versions) (pages : Nat) (pool : BufferPool)
    (files : DataFiles) : Prop where
  shape : PoolShape n pool
  frame : ∀ i, pool.InUse n i → (pool.frames i).key.fd = fd → FrameVersion v (pool.frames i)
  disk : ∀ q, v.version q (files.page ⟨fd, q⟩)
  pages : files.pages fd = pages ∨ v.written pages ∧ files.pages fd = pages + 1

section FileInv

variable {n : Nat} {fd : Int} {v : Versions} {pages : Nat} {pool : BufferPool} {files : DataFiles}

/-- A frame is written back, perhaps in part. -/
theorem FileInv.write (h : FileInv n fd v pages pool files) (hin : ∀ q, v.written q → q ≤ pages)
    {i : Nat} (hi : pool.InUse n i) (hdirty : (pool.frames i).dirty = true) (io : IoResult) :
    FileInv n fd v pages pool (files.write (pool.frames i).key (pool.frames i).buf io).1 := by
  by_cases hfd : (pool.frames i).key.fd = fd
  · have hf := h.frame i hi hfd
    have hwritten := hf.written hdirty
    have hle := hin _ hwritten
    refine ⟨h.shape, h.frame, fun q => ?_, ?_⟩
    · unfold DataFiles.write DataFiles.page
      simp only [hfd, Function.update_self]
      refine v.mixture (h.disk q) ?_ (length_pageRead _ _) (pageRead_pageWrite (files fd) hf.length io q)
      split
      · rename_i hq
        rw [hq]
        exact hf.version
      · exact h.disk q
    · have hpages := h.pages
      unfold DataFiles.write DataFiles.pages
      unfold DataFiles.pages at hpages
      simp only [hfd, Function.update_self]
      rcases hpages with hp | ⟨hw, hp⟩
      · obtain hsame | ⟨heq, hmore⟩ := pages_pageWrite_torn hf.length io pages hle hp
        · exact Or.inl hsame
        · exact Or.inr ⟨heq ▸ hwritten, hmore⟩
      · obtain hsame | ⟨heq, -⟩ := pages_pageWrite_torn hf.length io (pages + 1) (Nat.le_succ_of_le hle) hp
        · exact Or.inr ⟨hw, hsame⟩
        · omega
  · have hother : (files.write (pool.frames i).key (pool.frames i).buf io).1 fd = files fd :=
      Function.update_of_ne (Ne.symm hfd) _ _
    refine ⟨h.shape, h.frame, fun q => ?_, ?_⟩
    · rw [DataFiles.page, hother]
      exact h.disk q
    · rw [DataFiles.pages, hother]
      exact h.pages

/-- A change of the pool that adds no version. -/
theorem FileInv.withPool {pool' : BufferPool} (h : FileInv n fd v pages pool files)
    (hshape : PoolShape n pool')
    (hframe : ∀ i, pool'.InUse n i → (pool'.frames i).key.fd = fd → FrameVersion v (pool'.frames i)) :
    FileInv n fd v pages pool' files :=
  ⟨hshape, hframe, h.disk, h.pages⟩

/-- One frame changes, but not its page. -/
theorem FileInv.setFrame (h : FileInv n fd v pages pool files) {i : Nat} {f : Frame}
    (hkey : f.key = (pool.frames i).key) (hvalid : f.valid = (pool.frames i).valid)
    (hf : pool.InUse n i → f.key.fd = fd → FrameVersion v f) :
    FileInv n fd v pages (pool.setFrame i f) files := by
  refine h.withPool (h.shape.setFrame hkey hvalid) fun j hj hfd => ?_
  rcases eq_or_ne j i with rfl | hne
  · have hself : (pool.setFrame j f).frames j = f := Function.update_self _ _ _
    rw [hself] at hfd ⊢
    refine hf ⟨hj.1, ?_⟩ hfd
    have hv := hj.2
    rw [hself, hvalid] at hv
    exact hv
  · have hother : (pool.setFrame i f).frames j = pool.frames j := Function.update_of_ne hne _ _
    rw [hother] at hfd ⊢
    exact h.frame j ⟨hj.1, hother ▸ hj.2⟩ hfd

theorem FileInv.evict (h : FileInv n fd v pages pool files) (hn : 0 < n) (hn' : n < 2 ^ 30)
    (hin : ∀ q, v.written q → q ≤ pages) {i : Nat} (hi : pool.InUse n i) (io : IoResult) :
    FileInv n fd v pages (pool.evict files i io).1 (pool.evict files i io).2 := by
  have hwrite : FileInv n fd v pages pool (pool.evict files i io).2 := by
    simp only [BufferPool.evict]
    split
    · rename_i hdirty
      exact h.write hin hi hdirty io
    · exact h
  refine hwrite.withPool (h.shape.evict hn hn' hi files io) fun j hj hfd => ?_
  obtain ⟨hj', hframe⟩ := evict_inUse hj
  rw [hframe] at hfd ⊢
  exact h.frame j hj' hfd

/-- A page is loaded into a free frame. -/
theorem FileInv.load (h : FileInv n fd v pages pool files) (hn : 0 < n) (hn' : n < 2 ^ 30) {i : Nat}
    (hi : i < n) (hfree : (pool.frames i).valid = false) {k : PageKey}
    (hnew : ∀ j, pool.InUse n j → (pool.frames j).key ≠ k) :
    FileInv n fd v pages
      (((pool.setFrame i ⟨files.page k, k, 1, false, true⟩).mapInsert k i).lruPushFront i) files := by
  refine h.withPool (h.shape.load hn hn' hi hfree rfl rfl hnew) fun j hj hfd => ?_
  simp only [lruPushFront, mapInsert] at hj hfd ⊢
  rcases eq_or_ne j i with rfl | hne
  · have hself : (pool.setFrame j ⟨files.page k, k, 1, false, true⟩).frames j =
        ⟨files.page k, k, 1, false, true⟩ := Function.update_self _ _ _
    rw [hself] at hfd ⊢
    subst hfd
    exact ⟨length_pageRead _ _, h.disk k.pageId, fun hd => by cases hd⟩
  · have hother : (pool.setFrame i ⟨files.page k, k, 1, false, true⟩).frames j = pool.frames j :=
      Function.update_of_ne hne _ _
    rw [hother] at hfd ⊢
    exact h.frame j ⟨hj.1, hother ▸ hj.2⟩ hfd

/-- **A fetch** keeps the invariant, and the frame it returns has the page. -/
theorem FileInv.fetch (h : FileInv n fd v pages pool files) (hn : 0 < n) (hn' : n < 2 ^ 30)
    (hin : ∀ q, v.written q → q ≤ pages) (k : PageKey) (io : IoScript) :
    FileInv n fd v pages (bufferPoolFetch pool files k io).1 (bufferPoolFetch pool files k io).2.1 ∧
      ∀ i, (bufferPoolFetch pool files k io).2.2 = some i →
        (bufferPoolFetch pool files k io).1.InUse n i ∧
          ((bufferPoolFetch pool files k io).1.frames i).key = k := by
  unfold bufferPoolFetch
  cases hfind : pool.frameOf k with
  | some i =>
    obtain ⟨hi, hkey⟩ := (h.shape.frameOf_eq_some hn hn').mp hfind
    simp only
    have hset := h.setFrame (i := i)
      (f := { pool.frames i with pinCount := ((pool.frames i).pinCount + 1) % 2 ^ 32 }) rfl rfl
      fun hu hfd => ⟨(h.frame i hu hfd).length, (h.frame i hu hfd).version, (h.frame i hu hfd).written⟩
    have hself : ((pool.setFrame i { pool.frames i with
        pinCount := ((pool.frames i).pinCount + 1) % 2 ^ 32 }).frames i) =
        { pool.frames i with pinCount := ((pool.frames i).pinCount + 1) % 2 ^ 32 } :=
      Function.update_self _ _ _
    have huse : (pool.setFrame i { pool.frames i with
        pinCount := ((pool.frames i).pinCount + 1) % 2 ^ 32 }).InUse n i :=
      ⟨hi.1, by rw [hself]; exact hi.2⟩
    refine ⟨hset.withPool (hset.shape.lruTouch huse) hset.frame, fun j hj => ?_⟩
    cases hj
    exact ⟨huse, by rw [show ((pool.setFrame i _).lruTouch i).frames i = (pool.setFrame i _).frames i
      from rfl, hself]; exact hkey⟩
  | none =>
    have hnew := (h.shape.frameOf_eq_none hn hn').mp hfind
    have hvictim := h.shape.findVictim files (io 0)
    cases hv : pool.findVictim files (io 0) with
    | none => exact ⟨h, fun i hi => by cases hi⟩
    | some r =>
      obtain ⟨i, pool', files'⟩ := r
      rw [hv] at hvictim
      simp only
      -- the victim's frame is free, and nothing else has changed
      have hfreed : FileInv n fd v pages pool' files' ∧ i < n ∧ (pool'.frames i).valid = false ∧
          ∀ j, pool'.InUse n j → (pool'.frames j).key ≠ k := by
        obtain ⟨hi, hfree, rfl, rfl⟩ | ⟨hi, -, hev⟩ := hvictim
        · exact ⟨h, hi, hfree, hnew⟩
        · obtain rfl : pool' = (pool.evict files i (io 0)).1 := congrArg Prod.fst hev
          obtain rfl : files' = (pool.evict files i (io 0)).2 := congrArg Prod.snd hev
          refine ⟨h.evict hn hn' hin hi (io 0), hi.1, ?_, fun j hj => ?_⟩
          · simp [BufferPool.evict, BufferPool.setFrame]
          · obtain ⟨hj', hframe⟩ := evict_inUse hj
            rw [hframe]
            exact hnew j hj'
      obtain ⟨hinv, hi, hfree, hnew'⟩ := hfreed
      cases io 1 with
      | short m => exact ⟨hinv, fun j hj => by cases hj⟩
      | ok =>
        refine ⟨hinv.load hn hn' hi hfree hnew', fun j hj => ?_⟩
        cases hj
        have hself : (((pool'.setFrame i ⟨files'.page k, k, 1, false, true⟩).mapInsert k i).lruPushFront
            i).frames i = ⟨files'.page k, k, 1, false, true⟩ := Function.update_self _ _ _
        exact ⟨⟨hi, by rw [hself]⟩, by rw [hself]⟩

/-- The frame of a page is the one that has it. -/
theorem FileInv.setFrameOf (h : FileInv n fd v pages pool files) (hn : 0 < n) (hn' : n < 2 ^ 30)
    {k : PageKey} {i : Nat} (hfind : pool.frameOf k = some i) {f : Frame}
    (hbuf : f.buf = (pool.frames i).buf) (hkey : f.key = (pool.frames i).key)
    (hvalid : f.valid = (pool.frames i).valid)
    (hdirty : f.dirty = true → (pool.frames i).dirty = true ∨ v.written k.pageId) :
    FileInv n fd v pages (pool.setFrame i f) files := by
  obtain ⟨hi, hk⟩ := (h.shape.frameOf_eq_some hn hn').mp hfind
  refine h.setFrame hkey hvalid fun hu hfd => ?_
  rw [hkey] at hfd
  have hf := h.frame i hu hfd
  refine ⟨by rw [hbuf]; exact hf.length, by rw [hbuf, hkey]; exact hf.version, fun hd => ?_⟩
  rw [hkey]
  rcases hdirty hd with hwas | hw
  · exact hf.written hwas
  · rw [hk]
    exact hw

theorem FileInv.markDirty (h : FileInv n fd v pages pool files) (hn : 0 < n) (hn' : n < 2 ^ 30)
    {k : PageKey} (hk : v.written k.pageId) :
    FileInv n fd v pages (bufferPoolMarkDirty pool k) files := by
  unfold bufferPoolMarkDirty
  split
  · exact h
  · rename_i i hfind
    exact h.setFrameOf hn hn' hfind rfl rfl rfl fun _ => Or.inr hk

theorem FileInv.unpin (h : FileInv n fd v pages pool files) (hn : 0 < n) (hn' : n < 2 ^ 30)
    (k : PageKey) : FileInv n fd v pages (bufferPoolUnpin pool k) files := by
  unfold bufferPoolUnpin
  split
  · exact h
  · rename_i i hfind
    simp only
    split
    · exact h
    · exact h.setFrameOf hn hn' hfind rfl rfl rfl Or.inl

/-- A client writes a version through its pointer. -/
theorem FileInv.store (h : FileInv n fd v pages pool files) {i : Nat} {pageId : Nat} {page : Bytes}
    (hkey : (pool.frames i).key = ⟨fd, pageId⟩) (hlen : page.length = PAGE_SIZE)
    (hpage : v.version pageId page) :
    FileInv n fd v pages (pool.setFrame i { pool.frames i with buf := page }) files := by
  refine h.setFrame rfl rfl fun hu _ => ⟨hlen, ?_, ?_⟩
  · show v.version (pool.frames i).key.pageId page
    rw [hkey]
    exact hpage
  · exact (h.frame i hu (by rw [hkey])).written

end FileInv

/-! ## Visits -/

/-- The same, with a property of the index. -/
def FileEnv (n : Nat) (table : Table) (v : Versions) (pages : Nat) (R : BTree → Prop) (s : TableEnv) :
    Prop :=
  FileInv n table.dataFd v pages s.pool s.files ∧ R s.pkIndex

theorem Beside.meets {α : Type} {p : TableProg α} (hp : Beside p) {P : TableEnv → Prop}
    {Q : α → TableEnv → Prop} (h : Prog.Meets P p Q) (I : BufferPool → DataFiles → Prop) :
    Prog.Meets (fun s => P s ∧ I s.pool s.files) p (fun a s => Q a s ∧ I s.pool s.files) := by
  rintro s ⟨hs, hi⟩
  obtain ⟨a, s', hrun, hq⟩ := h s hs
  obtain ⟨hpool, hfiles⟩ := hp.unchanged hrun
  exact ⟨a, s', hrun, hq, by rw [hpool, hfiles]; exact hi⟩

/-- An access inside its array. -/
theorem touch_meets {P : TableEnv → Prop} {start len size : Nat} (h : start + len ≤ size) :
    Prog.Meets P (Prog.lift (touch start len size) : TableProg Unit) fun _ s => P s :=
  Prog.Meets.lift fun _ hs => ⟨(), touch_ok h, hs⟩

section Visits

variable {n : Nat} {table : Table} {v : Versions} {pages : Nat} {R : BTree → Prop}

/-- **A visit** that writes versions only: whatever input and output fails, it keeps the invariant. -/
theorem visitPage_meets {α : Type} {pageId : Nat} {fail : α}
    {body : Bytes → TableProg (α × Option Bytes)} {Post : α → Prop} (hn : 0 < n) (hn' : n < 2 ^ 30)
    (hin : ∀ q, v.written q → q ≤ pages) (hside : ∀ page, Beside (body page)) (hfail : Post fail)
    (hbody : ∀ page, page.length = PAGE_SIZE → v.version pageId page →
      Prog.Meets (fun s => R s.pkIndex) (body page) fun r s => R s.pkIndex ∧ Post r.1 ∧
        ∀ page', r.2 = some page' →
          v.written pageId ∧ page'.length = PAGE_SIZE ∧ v.version pageId page') :
    Prog.Meets (FileEnv n table v pages R) (visitPage table pageId fail body)
      fun a s => Post a ∧ FileEnv n table v pages R s := by
  let k : PageKey := ⟨table.dataFd, pageId⟩
  let Pinned (i : Nat) (pool : BufferPool) (files : DataFiles) : Prop :=
    FileInv n table.dataFd v pages pool files ∧ pool.InUse n i ∧ (pool.frames i).key = k
  have hfetch : Prog.Meets (FileEnv n table v pages R) (fetchPage table pageId) fun r s =>
      FileEnv n table v pages R s ∧ ∀ i, r = some i → s.pool.InUse n i ∧ (s.pool.frames i).key = k :=
    Prog.Meets.act fun s hs => by
      obtain ⟨hinv, hframe⟩ := hs.1.fetch hn hn' hin k s.io
      exact ⟨⟨hinv, hs.2⟩, hframe⟩
  refine Prog.Meets.bind hfetch fun r => ?_
  cases r with
  | none => exact Prog.Meets.pure fun s hs => ⟨hfail, hs.1⟩
  | some i =>
    -- what the client sees is a version of its page
    have hread : Prog.Meets
        (fun s => FileEnv n table v pages R s ∧
          ∀ j, some i = some j → s.pool.InUse n j ∧ (s.pool.frames j).key = k) (pageAt i)
        fun page s => (page.length = PAGE_SIZE ∧ v.version pageId page) ∧
          (R s.pkIndex ∧ Pinned i s.pool s.files) :=
      Prog.Meets.reads fun s hs => by
        obtain ⟨hi, hkey⟩ := hs.2 i rfl
        have hf := hs.1.1.frame i hi (by rw [hkey])
        have hversion := hf.version
        rw [hkey] at hversion
        exact ⟨⟨hf.length, hversion⟩, hs.1.2, hs.1.1, hi, hkey⟩
    refine Prog.Meets.bind hread fun page => Prog.Meets.and_pre fun hpage => ?_
    refine Prog.Meets.bind ((hside page).meets (hbody page hpage.1 hpage.2) (Pinned i)) fun r => ?_
    have hwrite : Prog.Meets
        (fun s => (R s.pkIndex ∧ Post r.1 ∧ ∀ page', r.2 = some page' →
          v.written pageId ∧ page'.length = PAGE_SIZE ∧ v.version pageId page') ∧
          Pinned i s.pool s.files) (writePage table pageId i r.2)
        fun _ s => Post r.1 ∧ FileEnv n table v pages R s := by
      cases hr : r.2 with
      | none => exact Prog.Meets.pure fun s hs => ⟨hs.1.2.1, hs.2.1, hs.1.1⟩
      | some page' =>
        have hstore : Prog.Meets
            (fun s => (R s.pkIndex ∧ Post r.1 ∧ ∀ page'', some page' = some page'' →
              v.written pageId ∧ page''.length = PAGE_SIZE ∧ v.version pageId page'') ∧
              Pinned i s.pool s.files) (storePage i page')
            fun _ s => v.written pageId ∧ (Post r.1 ∧ FileEnv n table v pages R s) :=
          Prog.Meets.act fun s hs => by
            obtain ⟨⟨hR, hpost, hnew⟩, hinv, -, hkey⟩ := hs
            obtain ⟨hw, hlen, hversion⟩ := hnew page' rfl
            exact ⟨hw, hpost, hinv.store hkey hlen hversion, hR⟩
        refine Prog.Meets.bind hstore fun _ => Prog.Meets.and_pre fun hw => ?_
        exact Prog.Meets.act fun s hs => ⟨hs.1, hs.2.1.markDirty hn hn' hw, hs.2.2⟩
    refine Prog.Meets.bind hwrite fun _ => ?_
    refine Prog.Meets.bind (Prog.Meets.act fun s hs => ?_) fun _ => Prog.Meets.pure fun s hs => hs
    exact ⟨hs.1, hs.2.1.unpin hn hn' k, hs.2.2⟩

/-- The same where the result does not matter. -/
theorem visitPage_keeps {α : Type} {pageId : Nat} {fail : α}
    {body : Bytes → TableProg (α × Option Bytes)} (hn : 0 < n) (hn' : n < 2 ^ 30)
    (hin : ∀ q, v.written q → q ≤ pages) (hside : ∀ page, Beside (body page))
    (hbody : ∀ page, page.length = PAGE_SIZE → v.version pageId page →
      Prog.Meets (fun s => R s.pkIndex) (body page) fun r s => R s.pkIndex ∧
        ∀ page', r.2 = some page' →
          v.written pageId ∧ page'.length = PAGE_SIZE ∧ v.version pageId page') :
    Prog.Meets (FileEnv n table v pages R) (visitPage table pageId fail body)
      fun _ s => FileEnv n table v pages R s := by
  have hvisit : Prog.Meets (FileEnv n table v pages R) (visitPage table pageId fail body)
      fun _ s => True ∧ FileEnv n table v pages R s :=
    visitPage_meets hn hn' hin hside trivial fun page hlen hversion =>
      (hbody page hlen hversion).post fun _ _ h => ⟨h.1, trivial, h.2⟩
  exact hvisit.post fun _ _ h => h.2

end Visits

end Ticketing
