import Ticketing.Storage.PageVersions
import Ticketing.Storage.PoolFaults

/-!
# What becomes of dirty pages when writes fail

`DirtyWorld` runs the pool beside the latest contents of each page that has been marked dirty.

* `DirtyWorld.Held` — these contents are in a frame that is still dirty, or in the file.
* `DirtyWorld.DropsDirty` — a fetch evicts a dirty page, and `page_write` fails.
* `DirtyInv` — the invariant; one lemma for each call.
* `dirty_pages_held` — every run in which no fetch drops a dirty page, whatever else fails.
* `evicted_page_lost` — `_find_victim` goes on after a failed write, and the only copy is gone.
-/

set_option autoImplicit false

namespace Ticketing

open Bytes BufferPool

/-! ## Writes that fail -/

section Writes

variable {files : DataFiles} {k : PageKey} {page : Bytes}

/-- A write leaves the other pages, however it ends. -/
theorem DataFiles.page_write_ne (hpage : page.length = PAGE_SIZE) (io : IoResult) {k' : PageKey}
    (hne : k' ≠ k) : (files.write k page io).1.page k' = files.page k' := by
  unfold DataFiles.write DataFiles.page
  by_cases hfd : k'.fd = k.fd
  · have hid : k'.pageId ≠ k.pageId := by
      intro hid
      apply hne
      cases k
      cases k'
      simp_all
    have hmix := @pageRead_pageWrite (files k.fd) k.pageId page hpage io k'.pageId
    rw [if_neg hid] at hmix
    simp only [hfd, Function.update_self]
    apply ext_getD
    · rw [length_pageRead, length_pageRead]
    · intro i hi
      rw [length_pageRead] at hi
      exact (hmix i hi).elim id id
  · simp only [Function.update_of_ne hfd]

/-- A write that returns 0 has written the page. -/
theorem DataFiles.page_write_self (hpage : page.length = PAGE_SIZE) {io : IoResult}
    (hok : (files.write k page io).2 = true) : (files.write k page io).1.page k = page := by
  have hfull : files.write k page io = files.write k page .ok := by
    cases io with
    | ok => rfl
    | short m =>
      have hm : PAGE_SIZE ≤ m := by simpa [DataFiles.write, pageWrite] using hok
      have hpos : m ≠ 0 := by
        rintro rfl
        exact absurd hm (by decide)
      have htake : page.take m = page := List.take_of_length_le (by omega)
      simp only [DataFiles.write, pageWrite, if_neg hpos, htake, decide_eq_true hm]
  rw [hfull, DataFiles.page_write hpage, if_pos rfl]

end Writes

/-! ## The world -/

/-- The pool and the files, and what each page that has been marked dirty had in it last. -/
structure DirtyWorld where
  pool : BufferPool
  files : DataFiles
  latest : PageKey → Option Bytes

namespace DirtyWorld

/-- A new pool over some files. -/
def init (n : Nat) (files : DataFiles) : DirtyWorld := ⟨bufferPoolCreate n, files, fun _ => none⟩

/-- Frame `i` has a page that is marked dirty. -/
def MarkedFrame (w : DirtyWorld) (i : Nat) : Prop :=
  i < w.pool.numFrames ∧ (w.pool.frames i).valid = true ∧ (w.pool.frames i).dirty = true

instance (w : DirtyWorld) (i : Nat) : Decidable (w.MarkedFrame i) := inferInstanceAs (Decidable (_ ∧ _))

/-- The latest contents after a call: a mark takes them from the frame, a store changes them where the
page is marked already. -/
def latestAfter (w : DirtyWorld) : PoolCall → PageKey → Option Bytes
  | .markDirty k =>
    match w.pool.frameOf k with
    | some i => Function.update w.latest k (some (w.pool.frames i).buf)
    | none => w.latest
  | .store i page _ =>
    if w.MarkedFrame i then Function.update w.latest (w.pool.frames i).key (some page) else w.latest
  | _ => w.latest

/-- One call. -/
def step (w : DirtyWorld) (call : PoolCall) : DirtyWorld :=
  ⟨(call.run (w.pool, w.files)).1, (call.run (w.pool, w.files)).2, w.latestAfter call⟩

/-- The latest contents of a page are in a frame that is still dirty, or in the file. -/
def Held (w : DirtyWorld) (k : PageKey) (b : Bytes) : Prop :=
  (∃ i, w.MarkedFrame i ∧ (w.pool.frames i).key = k ∧ (w.pool.frames i).buf = b) ∨ w.files.page k = b

/-- A fetch evicts a dirty page whose `page_write` fails. -/
def DropsDirty (w : DirtyWorld) : PoolCall → Prop
  | .fetch k io => w.pool.frameOf k = none ∧ ∃ i pool' files',
    w.pool.findVictim w.files (io 0) = some (i, pool', files') ∧ w.MarkedFrame i ∧
      (w.files.write (w.pool.frames i).key (w.pool.frames i).buf (io 0)).2 = false
  | _ => False

end DirtyWorld

/-! ## The invariant -/

/-- Dirty frames have the latest contents of their pages, and other marked pages have them on disk. -/
structure DirtyInv (n : Nat) (w : DirtyWorld) : Prop where
  kept : PoolKept n w.pool
  length : ∀ i, w.pool.InUse n i → (w.pool.frames i).buf.length = PAGE_SIZE
  dirty : ∀ i, w.pool.InUse n i → (w.pool.frames i).dirty = true →
    w.latest (w.pool.frames i).key = some (w.pool.frames i).buf
  disk : ∀ k b, w.latest k = some b →
    (∀ i, w.pool.InUse n i → (w.pool.frames i).dirty = true → (w.pool.frames i).key ≠ k) →
    w.files.page k = b

section Invariant

variable {n : Nat} {w : DirtyWorld}

theorem DirtyInv.held (h : DirtyInv n w) {k : PageKey} {b : Bytes} (hb : w.latest k = some b) :
    w.Held k b := by
  by_cases hframe : ∃ i, w.pool.InUse n i ∧ (w.pool.frames i).dirty = true ∧ (w.pool.frames i).key = k
  · obtain ⟨i, hi, hdirty, rfl⟩ := hframe
    refine Or.inl ⟨i, ⟨by rw [h.kept.shape.numFrames]; exact hi.1, hi.2, hdirty⟩, rfl, ?_⟩
    have hlatest := h.dirty i hi hdirty
    rw [hb, Option.some.injEq] at hlatest
    exact hlatest.symm
  · push Not at hframe
    exact Or.inr (h.disk k b hb fun i hi hd => hframe i hi hd)

/-- A frame in use changes, and with it what is known of its page. -/
theorem DirtyInv.setFrame (h : DirtyInv n w) {i : Nat} (hi : w.pool.InUse n i) {f : Frame}
    {files' : DataFiles} {latest' : PageKey → Option Bytes}
    (hkey : f.key = (w.pool.frames i).key) (hvalid : f.valid = true) (hlen : f.buf.length = PAGE_SIZE)
    (hother : ∀ k, k ≠ (w.pool.frames i).key → latest' k = w.latest k ∧ files'.page k = w.files.page k)
    (hdirty : f.dirty = true → latest' (w.pool.frames i).key = some f.buf)
    (hclean : f.dirty = false → ∀ b, latest' (w.pool.frames i).key = some b →
      files'.page (w.pool.frames i).key = b) :
    DirtyInv n ⟨w.pool.setFrame i f, files', latest'⟩ := by
  have hself := setFrame_self w.pool i f
  have hne : ∀ j, j ≠ i → (w.pool.setFrame i f).frames j = w.pool.frames j :=
    fun j hj => Function.update_of_ne hj _ _
  have huse : ∀ j, (w.pool.setFrame i f).InUse n j → w.pool.InUse n j := by
    intro j hj
    rcases eq_or_ne j i with rfl | hji
    · exact hi
    · exact ⟨hj.1, hne j hji ▸ hj.2⟩
  have hpage : ∀ j, w.pool.InUse n j → j ≠ i → (w.pool.frames j).key ≠ (w.pool.frames i).key :=
    fun j hj hji heq => hji (h.kept.shape.key_inj hj hi heq)
  refine ⟨h.kept.setFrame hkey (by rw [hvalid, hi.2]) fun hv => ?_, fun j hj => ?_, fun j hj hd => ?_,
    fun k b hb hno => ?_⟩
  · rw [hvalid] at hv
    cases hv
  · rcases eq_or_ne j i with rfl | hji
    · rw [hself]
      exact hlen
    · rw [hne j hji]
      exact h.length j (huse j hj)
  · rcases eq_or_ne j i with rfl | hji
    · rw [hself] at hd ⊢
      rw [hkey]
      exact hdirty hd
    · rw [hne j hji] at hd ⊢
      exact (hother _ (hpage j (huse j hj) hji)).1.trans (h.dirty j (huse j hj) hd)
  · rcases eq_or_ne k (w.pool.frames i).key with rfl | hk
    · refine hclean ?_ b hb
      by_contra hd
      have hin : (w.pool.setFrame i f).InUse n i := ⟨hi.1, by rw [hself]; exact hvalid⟩
      exact hno i hin (by rw [hself]; simpa using hd) (by rw [hself, hkey])
    · refine (hother k hk).2.trans (h.disk k b ((hother k hk).1.symm.trans hb) fun j hj hd => ?_)
      rcases eq_or_ne j i with rfl | hji
      · exact Ne.symm hk
      · have hj' : (w.pool.setFrame i f).InUse n j := ⟨hj.1, by rw [hne j hji]; exact hj.2⟩
        have hkj := hno j hj' (by rw [hne j hji]; exact hd)
        rwa [hne j hji] at hkj

/-- A frame in use changes neither its bytes nor its dirty flag. -/
theorem DirtyInv.setPins (h : DirtyInv n w) {i : Nat} (hi : w.pool.InUse n i) (p : Nat) :
    DirtyInv n ⟨w.pool.setFrame i { w.pool.frames i with pinCount := p }, w.files, w.latest⟩ := by
  refine h.setFrame hi rfl hi.2 (h.length i hi) (fun k _ => ⟨rfl, rfl⟩) (h.dirty i hi) fun hclean b hb => ?_
  refine h.disk _ b hb fun j hj hd hkey => ?_
  rw [h.kept.shape.key_inj hj hi hkey] at hd
  rw [show (w.pool.frames i).dirty = false from hclean] at hd
  cases hd

/-- Only frames and files matter. -/
theorem DirtyInv.congr {w' : DirtyWorld} (h : DirtyInv n w) (hkept : PoolKept n w'.pool)
    (hframes : w'.pool.frames = w.pool.frames) (hfiles : w'.files = w.files)
    (hlatest : w'.latest = w.latest) : DirtyInv n w' := by
  have huse : ∀ i, w'.pool.InUse n i ↔ w.pool.InUse n i := by
    intro i
    rw [InUse, InUse, hframes]
  refine ⟨hkept, fun i hi => ?_, fun i hi hd => ?_, fun k b hb hno => ?_⟩
  · rw [hframes]
    exact h.length i ((huse i).mp hi)
  · rw [hframes] at hd ⊢
    rw [hlatest]
    exact h.dirty i ((huse i).mp hi) hd
  · rw [hfiles]
    rw [hlatest] at hb
    refine h.disk k b hb fun i hi hd => ?_
    rw [← hframes] at hd ⊢
    exact hno i ((huse i).mpr hi) hd

/-- The page of a frame is written back, and the frame is dirty no more. -/
theorem DirtyInv.clean (h : DirtyInv n w) {i : Nat} (hi : w.pool.InUse n i)
    (hd : (w.pool.frames i).dirty = true) {io : IoResult}
    (hok : (w.files.write (w.pool.frames i).key (w.pool.frames i).buf io).2 = true) :
    DirtyInv n ⟨w.pool.setFrame i { w.pool.frames i with dirty := false },
      (w.files.write (w.pool.frames i).key (w.pool.frames i).buf io).1, w.latest⟩ := by
  have hlen := h.length i hi
  refine h.setFrame hi rfl hi.2 hlen (fun k hk => ⟨rfl, DataFiles.page_write_ne hlen io hk⟩)
    (fun hclean => by cases hclean) fun _ b hb => ?_
  rw [DataFiles.page_write_self hlen hok]
  have hlatest := h.dirty i hi hd
  rw [hb, Option.some.injEq] at hlatest
  exact hlatest.symm

/-- A write of a dirty frame that fails leaves the frame. -/
theorem DirtyInv.failedWrite (h : DirtyInv n w) {i : Nat} (hi : w.pool.InUse n i)
    (hd : (w.pool.frames i).dirty = true) (io : IoResult) :
    DirtyInv n ⟨w.pool, (w.files.write (w.pool.frames i).key (w.pool.frames i).buf io).1, w.latest⟩ := by
  refine ⟨h.kept, h.length, h.dirty, fun k b hb hno => ?_⟩
  have hk : k ≠ (w.pool.frames i).key := Ne.symm (hno i hi hd)
  simp only [DataFiles.page_write_ne (h.length i hi) io hk]
  exact h.disk k b hb hno

/-- A clean frame is freed. -/
theorem DirtyInv.free (h : DirtyInv n w) (hn : 0 < n) (hn' : n < 2 ^ 30) {i : Nat}
    (hi : w.pool.InUse n i) (hpin : (w.pool.frames i).pinCount = 0) {io : IoResult}
    (hsafe : (w.pool.frames i).dirty = true →
      (w.files.write (w.pool.frames i).key (w.pool.frames i).buf io).2 = true) :
    DirtyInv n ⟨(w.pool.evict w.files i io).1, (w.pool.evict w.files i io).2, w.latest⟩ := by
  have hlen := h.length i hi
  have hgone : ∀ j, (w.pool.evict w.files i io).1.InUse n j → w.pool.InUse n j ∧ j ≠ i ∧
      (w.pool.evict w.files i io).1.frames j = w.pool.frames j := by
    intro j hj
    obtain ⟨hj', hframe⟩ := evict_inUse hj
    refine ⟨hj', ?_, hframe⟩
    rintro rfl
    have hv := hj.2
    rw [evict_valid] at hv
    cases hv
  refine ⟨h.kept.evict hn hn' hi hpin w.files io, fun j hj => ?_, fun j hj hd => ?_,
    fun k b hb hno => ?_⟩
  · obtain ⟨hj', -, hframe⟩ := hgone j hj
    simp only [hframe]
    exact h.length j hj'
  · obtain ⟨hj', -, hframe⟩ := hgone j hj
    simp only [hframe] at hd ⊢
    exact h.dirty j hj' hd
  · have hrest : ∀ j, w.pool.InUse n j → j ≠ i → (w.pool.frames j).dirty = true →
        (w.pool.frames j).key ≠ k := by
      intro j hj hne hd
      have hframe : (w.pool.evict w.files i io).1.frames j = w.pool.frames j := evict_frames_ne hne
      have hkj := hno j ⟨hj.1, by simp only [hframe]; exact hj.2⟩ (by simp only [hframe]; exact hd)
      simpa only [hframe] using hkj
    have hdisk : (w.pool.frames i).dirty = false ∨ (w.pool.frames i).key ≠ k → w.files.page k = b := by
      intro hcase
      refine h.disk k b hb fun j hj hd => ?_
      rcases eq_or_ne j i with rfl | hne
      · rcases hcase with hclean | hkey
        · rw [hclean] at hd
          cases hd
        · exact hkey
      · exact hrest j hj hne hd
    simp only [BufferPool.evict]
    by_cases hd : (w.pool.frames i).dirty = true
    · rw [if_pos hd]
      by_cases hkey : (w.pool.frames i).key = k
      · subst hkey
        rw [DataFiles.page_write_self hlen (hsafe hd)]
        have hlatest := h.dirty i hi hd
        rw [hb, Option.some.injEq] at hlatest
        exact hlatest.symm
      · rw [DataFiles.page_write_ne hlen io (Ne.symm hkey)]
        exact hdisk (Or.inr hkey)
    · rw [if_neg hd]
      exact hdisk (Or.inl (by simpa using hd))

/-- A page is loaded into a free frame. -/
theorem DirtyInv.load (h : DirtyInv n w) (hn : 0 < n) (hn' : n < 2 ^ 30) {i : Nat} (hi : i < n)
    (hfree : (w.pool.frames i).valid = false) {k : PageKey}
    (hnew : ∀ j, w.pool.InUse n j → (w.pool.frames j).key ≠ k) :
    DirtyInv n ⟨((w.pool.setFrame i ⟨w.files.page k, k, 1, false, true⟩).mapInsert k i).lruPushFront i,
      w.files, w.latest⟩ := by
  have hself := setFrame_self w.pool i ⟨w.files.page k, k, 1, false, true⟩
  have hother : ∀ j, j ≠ i → (w.pool.setFrame i ⟨w.files.page k, k, 1, false, true⟩).frames j =
      w.pool.frames j := fun j hj => Function.update_of_ne hj _ _
  have hold : ∀ j, w.pool.InUse n j → j ≠ i := by
    rintro j hj rfl
    rw [InUse, hfree] at hj
    cases hj.2
  refine ⟨h.kept.load hn hn' hi hfree hnew _, fun j hj => ?_, fun j hj hd => ?_,
    fun k' b hb hno => h.disk k' b hb fun j hj hd => ?_⟩
  · simp only [lruPushFront, mapInsert] at hj ⊢
    rcases eq_or_ne j i with rfl | hne
    · rw [hself]
      exact length_pageRead _ _
    · rw [hother j hne]
      exact h.length j ⟨hj.1, hother j hne ▸ hj.2⟩
  · simp only [lruPushFront, mapInsert] at hj hd ⊢
    rcases eq_or_ne j i with rfl | hne
    · rw [hself] at hd
      cases hd
    · rw [hother j hne] at hd ⊢
      exact h.dirty j ⟨hj.1, hother j hne ▸ hj.2⟩ hd
  · simp only [lruPushFront, mapInsert] at hno
    have hframe := hother j (hold j hj)
    have hkj := hno j ⟨hj.1, by simp only [hframe]; exact hj.2⟩ (by rw [hframe]; exact hd)
    rwa [hframe] at hkj

/-- **A fetch** that drops no dirty page. -/
theorem DirtyInv.fetch (h : DirtyInv n w) (hn : 0 < n) (hn' : n < 2 ^ 30) {k : PageKey} {io : IoScript}
    (hsafe : ¬ w.DropsDirty (.fetch k io)) :
    DirtyInv n ⟨(bufferPoolFetch w.pool w.files k io).1, (bufferPoolFetch w.pool w.files k io).2.1,
      w.latest⟩ := by
  have hshape := h.kept.shape
  unfold bufferPoolFetch
  cases hfind : w.pool.frameOf k with
  | some i =>
    obtain ⟨hi, -⟩ := (hshape.frameOf_eq_some hn hn').mp hfind
    have hpins := h.setPins hi (((w.pool.frames i).pinCount + 1) % 2 ^ 32)
    refine hpins.congr ⟨hpins.kept.shape.lruTouch ⟨hi.1, ?_⟩, hpins.kept.unpinned⟩ rfl rfl rfl
    rw [setFrame_self]
    exact hi.2
  | none =>
    have hnew := (hshape.frameOf_eq_none hn hn').mp hfind
    cases hv : w.pool.findVictim w.files (io 0) with
    | none => exact h
    | some r =>
      obtain ⟨i, pool', files'⟩ := r
      simp only
      have hfreed : DirtyInv n ⟨pool', files', w.latest⟩ ∧ i < n ∧ (pool'.frames i).valid = false ∧
          ∀ j, pool'.InUse n j → (pool'.frames j).key ≠ k := by
        cases hshape.freed hv with
        | free hi hfree => exact ⟨h, hi, hfree, hnew⟩
        | evicted hi hpin _ _ =>
          refine ⟨h.free hn hn' hi hpin fun hd => ?_, hi.1, evict_valid w.files (io 0) i, fun j hj => ?_⟩
          · by_contra hfail
            exact hsafe ⟨hfind, i, _, _, hv, ⟨by rw [hshape.numFrames]; exact hi.1, hi.2, hd⟩,
              by simpa using hfail⟩
          · obtain ⟨hj', hframe⟩ := evict_inUse hj
            rw [hframe]
            exact hnew j hj'
      obtain ⟨hinv, hi, hfree, hnew'⟩ := hfreed
      cases io 1 with
      | short m => exact hinv
      | ok => exact hinv.load hn hn' hi hfree hnew'

/-- A page is marked. -/
theorem DirtyInv.markDirty (h : DirtyInv n w) (hn : 0 < n) (hn' : n < 2 ^ 30) (k : PageKey) :
    DirtyInv n (w.step (.markDirty k)) := by
  simp only [DirtyWorld.step, PoolCall.run, DirtyWorld.latestAfter, bufferPoolMarkDirty]
  cases hfind : w.pool.frameOf k with
  | none => exact h
  | some i =>
    obtain ⟨hi, rfl⟩ := (h.kept.shape.frameOf_eq_some hn hn').mp hfind
    refine h.setFrame hi rfl hi.2 (h.length i hi) (fun k' hk' => ⟨Function.update_of_ne hk' _ _, rfl⟩)
      (fun _ => Function.update_self _ _ _) fun hclean => ?_
    cases hclean

/-- A store through a pointer to a frame. -/
theorem DirtyInv.store (h : DirtyInv n w) (i : Nat) {page : Bytes} (hpage : page.length = PAGE_SIZE) :
    DirtyInv n (w.step (.store i page hpage)) := by
  simp only [DirtyWorld.step, PoolCall.run, DirtyWorld.latestAfter]
  by_cases hi : w.pool.InUse n i
  · by_cases hmarked : w.MarkedFrame i
    · rw [if_pos hmarked]
      refine h.setFrame hi rfl hi.2 hpage (fun k hk => ⟨Function.update_of_ne hk _ _, rfl⟩)
        (fun _ => Function.update_self _ _ _) fun hclean => ?_
      have hd := hmarked.2.2
      rw [show (w.pool.frames i).dirty = false from hclean] at hd
      cases hd
    · have hnum := h.kept.shape.numFrames
      have hd : (w.pool.frames i).dirty = false := by
        by_contra hd
        exact hmarked ⟨by rw [hnum]; exact hi.1, hi.2, by simpa using hd⟩
      rw [if_neg hmarked]
      refine h.setFrame hi rfl hi.2 hpage (fun k _ => ⟨rfl, rfl⟩) (fun hdirty => ?_) fun _ b hb => ?_
      · rw [show (w.pool.frames i).dirty = true from hdirty] at hd
        cases hd
      · refine h.disk _ b hb fun j hj hdj hkey => ?_
        rw [h.kept.shape.key_inj hj hi hkey, hd] at hdj
        cases hdj
  · -- a store through a stale pointer to a frame that holds no page
    have hmarked : ¬ w.MarkedFrame i := fun hm => hi ⟨h.kept.shape.numFrames ▸ hm.1, hm.2.1⟩
    rw [if_neg hmarked]
    have hother : ∀ j, w.pool.InUse n j → (w.pool.setFrame i { w.pool.frames i with buf := page }).frames j =
        w.pool.frames j := by
      intro j hj
      refine Function.update_of_ne ?_ _ _
      rintro rfl
      exact hi hj
    have huse : ∀ j, (w.pool.setFrame i { w.pool.frames i with buf := page }).InUse n j ↔
        w.pool.InUse n j := by
      intro j
      rw [InUse, InUse]
      rcases eq_or_ne j i with rfl | hne
      · rw [setFrame_self]
      · rw [show (w.pool.setFrame i _).frames j = w.pool.frames j from Function.update_of_ne hne _ _]
    refine ⟨h.kept.setFrame rfl rfl fun _ => rfl, fun j hj => ?_, fun j hj hd => ?_, fun k b hb hno => ?_⟩
    · have hj' := (huse j).mp hj
      simp only [hother j hj']
      exact h.length j hj'
    · have hj' := (huse j).mp hj
      simp only [hother j hj'] at hd ⊢
      exact h.dirty j hj' hd
    · refine h.disk k b hb fun j hj hd => ?_
      have hkj := hno j ((huse j).mpr hj) (by simp only [hother j hj]; exact hd)
      simpa only [hother j hj] using hkj

/-- A frame in use that is found dirty is written: either it is clean now, or it stays as it is. -/
theorem DirtyInv.writeBack (h : DirtyInv n w) {i : Nat} (hi : w.pool.InUse n i)
    (hd : (w.pool.frames i).dirty = true) (io : IoResult) :
    let r := w.files.write (w.pool.frames i).key (w.pool.frames i).buf io
    (r.2 = true → DirtyInv n ⟨w.pool.setFrame i { w.pool.frames i with dirty := false }, r.1, w.latest⟩) ∧
      (r.2 = false → DirtyInv n ⟨w.pool, r.1, w.latest⟩) :=
  ⟨fun hok => h.clean hi hd hok, fun _ => h.failedWrite hi hd io⟩

theorem DirtyInv.flushPage (h : DirtyInv n w) (hn : 0 < n) (hn' : n < 2 ^ 30) (k : PageKey)
    (io : IoResult) :
    DirtyInv n ⟨(bufferPoolFlushPage w.pool w.files k io).1, (bufferPoolFlushPage w.pool w.files k io).2.1,
      w.latest⟩ := by
  unfold bufferPoolFlushPage
  cases hfind : w.pool.frameOf k with
  | none => exact h
  | some i =>
    obtain ⟨hi, -⟩ := (h.kept.shape.frameOf_eq_some hn hn').mp hfind
    simp only
    by_cases hd : (w.pool.frames i).dirty = true
    · rw [if_pos hd]
      obtain ⟨hwritten, hfailed⟩ := h.writeBack hi hd io
      split
      · rename_i hok
        exact hwritten hok
      · rename_i hfail
        exact hfailed (by simpa using hfail)
    · rw [if_neg hd]
      exact h

/-- One turn of the loop of `buffer_pool_flush_all`. -/
theorem DirtyInv.flushFrame {s : BufferPool × DataFiles × Bool} {latest : PageKey → Option Bytes}
    (h : DirtyInv n ⟨s.1, s.2.1, latest⟩) (io : IoScript) {i : Nat} (hi : i < n) :
    DirtyInv n ⟨(flushFrame io s i).1, (flushFrame io s i).2.1, latest⟩ := by
  unfold Ticketing.flushFrame
  simp only
  by_cases hvd : ((s.1.frames i).valid && (s.1.frames i).dirty) = true
  · rw [if_pos hvd]
    obtain ⟨hv, hd⟩ := (Bool.and_eq_true _ _).mp hvd
    obtain ⟨hwritten, hfailed⟩ := h.writeBack (i := i) ⟨hi, hv⟩ hd (io i)
    split
    · rename_i hok
      exact hwritten hok
    · rename_i hfail
      exact hfailed (by simpa using hfail)
  · rw [if_neg hvd]
    exact h

theorem DirtyInv.flushFrames {latest : PageKey → Option Bytes} (io : IoScript) (is : List Nat)
    (his : ∀ i ∈ is, i < n) : ∀ {s : BufferPool × DataFiles × Bool}, DirtyInv n ⟨s.1, s.2.1, latest⟩ →
      DirtyInv n ⟨(is.foldl (Ticketing.flushFrame io) s).1, (is.foldl (Ticketing.flushFrame io) s).2.1,
        latest⟩ := by
  induction is with
  | nil => exact fun h => h
  | cons i is ih =>
    intro s h
    exact ih (fun j hj => his j (List.mem_cons_of_mem _ hj)) (h.flushFrame io (his i List.mem_cons_self))

/-- **Every call** that drops no dirty page. -/
theorem DirtyInv.step (h : DirtyInv n w) (hn : 0 < n) (hn' : n < 2 ^ 30) {call : PoolCall}
    (hsafe : ¬ w.DropsDirty call) : DirtyInv n (w.step call) := by
  cases call with
  | fetch k io => exact h.fetch hn hn' hsafe
  | unpin k =>
    simp only [DirtyWorld.step, PoolCall.run, DirtyWorld.latestAfter, bufferPoolUnpin]
    cases hfind : w.pool.frameOf k with
    | none => exact h
    | some i =>
      obtain ⟨hi, -⟩ := (h.kept.shape.frameOf_eq_some hn hn').mp hfind
      simp only
      split
      · exact h
      · exact h.setPins hi _
  | markDirty k => exact h.markDirty hn hn' k
  | flushPage k io => exact h.flushPage hn hn' k io
  | flushAll io =>
    refine DirtyInv.flushFrames io _ (fun i hi => ?_) h
    rw [← h.kept.shape.numFrames]
    exact List.mem_range.mp hi
  | store i page hpage => exact h.store i hpage

theorem dirtyInv_init (hn' : n < 2 ^ 30) (files : DataFiles) : DirtyInv n (DirtyWorld.init n files) := by
  refine ⟨poolKept_create hn', ?_, ?_, ?_⟩
  · rintro i ⟨-, hv⟩
    cases hv
  · rintro i ⟨-, hv⟩
    cases hv
  · intro k b hb
    cases hb

end Invariant

/-! ## Every run -/

/-- **No dirty page is lost**, in a pool of fewer than `2 ^ 30` frames, as long as no fetch evicts a dirty
page that cannot be written: whatever else fails, in every state the latest contents of every page that
has been marked dirty are in a frame that is still marked, or in the file. -/
theorem dirty_pages_held {n : Nat} (hn : 0 < n) (hn' : n < 2 ^ 30) (files : DataFiles) {w : DirtyWorld}
    (h : Reachable (fun w call => some (w.step call)) (fun w call => ¬ w.DropsDirty call)
      (DirtyWorld.init n files) w) {k : PageKey} {b : Bytes} (hb : w.latest k = some b) : w.Held k b := by
  have hinv : DirtyInv n w := h.invariant (dirtyInv_init hn' files) fun w call w' hi hsafe hs => by
    obtain rfl := Option.some.inj hs
    exact hi.step hn hn' hsafe
  exact hinv.held hb

/-- A pool of one frame, over files of two pages of zeros, whose frame is filled and marked. -/
def markedWorld : DirtyWorld :=
  [PoolCall.fetch ⟨3, 0⟩ IoScript.ok, .store 0 sevens List.length_replicate, .markDirty ⟨3, 0⟩].foldl
    DirtyWorld.step (DirtyWorld.init 1 fun _ => List.replicate (2 * PAGE_SIZE) 0)

theorem reachable_markedWorld {ok : DirtyWorld → PoolCall → Prop}
    (hok : ∀ w call, ¬ w.DropsDirty call → ok w call) :
    Reachable (fun w call => some (w.step call)) ok
      (DirtyWorld.init 1 fun _ => List.replicate (2 * PAGE_SIZE) 0) markedWorld := by
  have hfetch : ¬ (DirtyWorld.init 1 fun _ => List.replicate (2 * PAGE_SIZE) 0).DropsDirty
      (.fetch ⟨3, 0⟩ IoScript.ok) := by
    rintro ⟨-, i, -, -, -, ⟨-, hv, -⟩, -⟩
    cases hv
  have hloaded : Reachable (fun w call => some (DirtyWorld.step w call)) ok
      (DirtyWorld.init 1 fun _ => List.replicate (2 * PAGE_SIZE) 0)
      ((DirtyWorld.init 1 fun _ => List.replicate (2 * PAGE_SIZE) 0).step (.fetch ⟨3, 0⟩ IoScript.ok)) :=
    Reachable.refl.tail (PoolCall.fetch ⟨3, 0⟩ IoScript.ok) (hok _ _ hfetch) rfl
  exact (hloaded.tail (.store 0 sevens List.length_replicate) (hok _ _ id) rfl).tail (.markDirty ⟨3, 0⟩)
    (hok _ _ id) rfl

/-- When the flush of the page fails, its frame still has it. -/
theorem dirty_pages_held_flush : (markedWorld.step (.flushPage ⟨3, 0⟩ (.short 100))).Held ⟨3, 0⟩ sevens :=
  dirty_pages_held (by decide) (by decide) _
    ((reachable_markedWorld fun _ _ h => h).tail (.flushPage ⟨3, 0⟩ (.short 100)) id rfl) rfl

/-- The page is released, and another one needs the frame: the write fails. -/
def replacedWorld : DirtyWorld :=
  (markedWorld.step (.unpin ⟨3, 0⟩)).step (.fetch ⟨3, 1⟩ fun i => if i = 0 then .short 0 else .ok)

/-- **`_find_victim` goes on after a failed write**: the page that was marked dirty is neither in a frame
nor in the file. -/
theorem evicted_page_lost : ∃ (files : DataFiles) (w : DirtyWorld),
    Reachable (fun w call => some (w.step call)) (fun _ _ => True) (DirtyWorld.init 1 files) w ∧
      w.latest ⟨3, 0⟩ = some sevens ∧ ¬ w.Held ⟨3, 0⟩ sevens := by
  have hreach := ((reachable_markedWorld fun _ _ _ => trivial).tail (.unpin ⟨3, 0⟩) trivial rfl).tail
    (.fetch ⟨3, 1⟩ fun i => if i = 0 then .short 0 else .ok) trivial rfl
  refine ⟨_, replacedWorld, hreach, rfl, ?_⟩
  have hkey : (replacedWorld.pool.frames 0).key ≠ ⟨3, 0⟩ := by decide +kernel
  have hdisk : (replacedWorld.files.page ⟨3, 0⟩).head? = some 0 := by decide +kernel
  rintro (⟨i, hm, hi, -⟩ | hpage)
  · obtain rfl : i = 0 := Nat.lt_one_iff.mp hm.1
    exact hkey hi
  · rw [hpage] at hdisk
    exact absurd hdisk (by decide)

end Ticketing
