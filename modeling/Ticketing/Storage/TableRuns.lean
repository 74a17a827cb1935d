import Ticketing.Storage.PoolClient
import Ticketing.Storage.Table

/-!
# Table functions over a pool that loses nothing

When no input or output fails, the table layer sees its pages as if there were no pool: a visit reads and
writes the memory `mem` that the pool stands for.

* `Runs` — what a function returns and leaves, with the pool and the files in a given relation; `Steps`
  for a function that uses neither.  One rule for each way to build one.
* `Cached` — the pool, between two visits, stands for a memory; `Shown` with the files it has yet to write to.
* `Runs.visit`, `Runs.alloc` — a visit and a new page.
-/

set_option autoImplicit false

namespace Ticketing

open Bytes BufferPool

/-- What a table works on beside its pages. -/
structure TableRest where
  pkIndex : BTree
  wal : Wal
  nextId : TableId → Nat

def TableEnv.rest (s : TableEnv) : TableRest := ⟨s.pkIndex, s.wal, s.nextId⟩

/-- The environment as given, with no failure of input or output to come. -/
structure Shows (I : BufferPool → DataFiles → Prop) (r : TableRest) (s : TableEnv) : Prop where
  pool : I s.pool s.files
  rest : s.rest = r
  io : s.io = IoScript.ok

/-- The program returns `a` and leaves pool and files in `I'`, and the rest as in `r'`. -/
def Runs {α : Type} (I : BufferPool → DataFiles → Prop) (r : TableRest) (p : TableProg α) (a : α)
    (I' : BufferPool → DataFiles → Prop) (r' : TableRest) : Prop :=
  Prog.Meets (Shows I r) p fun b s => b = a ∧ Shows I' r' s

/-- A program that uses neither the pool nor the files. -/
def Steps {α : Type} (r : TableRest) (p : TableProg α) (a : α) (r' : TableRest) : Prop :=
  ∀ I, Runs I r p a I r'

section Rules

variable {α β : Type} {I I' I'' : BufferPool → DataFiles → Prop} {r r' r'' : TableRest}
  {p : TableProg α} {a : α} {b : β}

theorem Runs.pure (a : α) : Runs I r (Pure.pure a) a I r := Prog.Meets.pure fun _ hs => ⟨rfl, hs⟩

theorem Runs.bind {f : α → TableProg β} (hp : Runs I r p a I' r') (hf : Runs I' r' (f a) b I'' r'') :
    Runs I r (p >>= f) b I'' r'' := by
  refine Prog.Meets.bind hp fun a' => Prog.Meets.and_pre ?_
  rintro rfl
  exact hf

theorem Runs.reads {f : TableEnv → α} (h : ∀ s, Shows I r s → f s = a) :
    Runs I r (Prog.reads f) a I r :=
  Prog.Meets.reads fun s hs => ⟨h s hs, hs⟩

theorem Runs.act {l : LayerStep} {f : TableEnv → α × TableEnv}
    (h : ∀ s, Shows I r s → (f s).1 = a ∧ Shows I' r' (f s).2) : Runs I r (Prog.act l f) a I' r' :=
  Prog.Meets.act h

/-- A computation beside the state. -/
theorem Runs.lift {e : Except BadAccess α} (h : e = .ok a) : Runs I r (Prog.lift e) a I r :=
  Prog.Meets.lift fun _ hs => ⟨a, h, rfl, hs⟩

/-- An access inside its array. -/
theorem Runs.touch {start len size : Nat} (h : start + len ≤ size) :
    Runs I r (Prog.lift (touch start len size)) () I r :=
  Runs.lift (touch_ok h)

/-- **A loop** over the numbers of the elements of a list. -/
theorem Runs.foldRange {γ : Type} {f : β → Nat → TableProg β} {g : β → γ → β} (xs : List γ)
    (hstep : ∀ i x, xs[i]? = some x → ∀ b, Runs I r (f b i) (g b x) I r) (b : β) :
    Runs I r (Prog.fold f b (List.range xs.length)) (xs.foldl g b) I r := by
  have hturns : ∀ front i post b', List.range xs.length = front ++ i :: post →
      Prog.Meets (fun s => b' = (xs.take front.length).foldl g b ∧ Shows I r s) (f b' i)
        fun b'' s => b'' = (xs.take (front ++ [i]).length).foldl g b ∧ Shows I r s := by
    intro front i post b' hrange
    -- the number is that of the first element not yet passed
    have hi : front.length = i ∧ i < xs.length := by
      have hget : (List.range xs.length)[front.length]? = some i := by
        rw [hrange, List.getElem?_append_right (Nat.le_refl _), Nat.sub_self]
        rfl
      obtain ⟨hlt, hget⟩ := List.getElem?_eq_some_iff.mp hget
      rw [List.getElem_range] at hget
      rw [List.length_range] at hlt
      omega
    obtain ⟨rfl, hlt⟩ := hi
    refine Prog.Meets.and_pre ?_
    rintro rfl
    refine (hstep _ _ (List.getElem?_eq_getElem hlt) _).post ?_
    rintro b'' s ⟨rfl, hs⟩
    refine ⟨?_, hs⟩
    rw [List.length_append, List.length_singleton, List.take_succ_eq_append_getElem hlt, List.foldl_append]
    rfl
  have hloop := Prog.Meets.fold (b := b)
    (fun front b' s => b' = (xs.take front.length).foldl g b ∧ Shows I r s) hturns
  rw [List.length_range, List.take_length] at hloop
  exact hloop.pre fun s hs => ⟨rfl, hs⟩

theorem Steps.pure (a : α) : Steps r (Pure.pure a) a r := fun _ => Runs.pure a

theorem Steps.bind {f : α → TableProg β} (hp : Steps r p a r') (hf : Steps r' (f a) b r'') :
    Steps r (p >>= f) b r'' :=
  fun I => (hp I).bind (hf I)

theorem Steps.touch {start len size : Nat} (h : start + len ≤ size) :
    Steps r (Prog.lift (Ticketing.touch start len size)) () r :=
  fun _ => Runs.touch h

/-- A call of the log whose writes succeed. -/
theorem Steps.walCall {log : Wal → IoScript → UInt64 × Wal × IoScript} {lsn : UInt64} {wal : Wal}
    (h : log r.wal IoScript.ok = (lsn, wal, IoScript.ok)) :
    Steps r (Ticketing.walCall log) lsn { r with wal := wal } := by
  refine fun I => Runs.act fun s hs => ?_
  obtain ⟨hpool, rfl, hio⟩ := hs
  have hlog : log s.wal s.io = (lsn, wal, IoScript.ok) := by
    rw [hio]
    exact h
  dsimp only
  rw [hlog]
  exact ⟨rfl, hpool, rfl, rfl⟩

theorem Steps.index {f : BTree → TableProg α} (h : Steps r (f r.pkIndex) a r') :
    Steps r (Prog.reads TableEnv.pkIndex >>= f) a r' := by
  refine Steps.bind (fun I => Runs.reads fun s hs => ?_) h
  rw [← hs.rest]
  rfl

theorem Steps.setIndex (t : BTree) : Steps r (Ticketing.setIndex t) () { r with pkIndex := t } := by
  refine fun I => Runs.act fun s hs => ⟨rfl, hs.pool, ?_, hs.io⟩
  rw [← hs.rest]
  rfl

theorem Steps.lift {e : Except BadAccess α} (h : e = .ok a) : Steps r (Prog.lift e) a r :=
  fun _ => Runs.lift h

/-- `etp_next_id`. -/
theorem Steps.etpNextId (table : Table) : Steps r (Ticketing.etpNextId table) (r.nextId table.id)
    { r with nextId := Function.update r.nextId table.id ((r.nextId table.id + 1) % 2 ^ 32) } := by
  refine fun I => Runs.act fun s hs => ?_
  obtain ⟨hpool, rfl, hio⟩ := hs
  exact ⟨rfl, hpool, rfl, hio⟩

/-- `btree_insert`. -/
theorem Steps.indexInsert {alloc : Nat → Bool} {key : Nat} {value : RecordPtr} {out : Int × BTree}
    (h : btreeInsertChecked alloc r.pkIndex key value = .ok out) :
    Steps r (Ticketing.indexInsert alloc key value) out.1 { r with pkIndex := out.2 } :=
  Steps.index (Steps.bind (Steps.lift h) (Steps.bind (Steps.setIndex _) (Steps.pure _)))

end Rules

/-! ## Pages -/

/-- The pool stands for the memory, over files of so many pages. -/
def Cached (n : Nat) (mem : PageKey → Bytes) (pages : Int → Nat) (pool : BufferPool) (files : DataFiles) :
    Prop :=
  Quiet n pool files mem ∧ ∀ fd, files.pages fd = pages fd

/-- The memory after a visit. -/
def afterVisit (mem : PageKey → Bytes) (k : PageKey) : Option Bytes → PageKey → Bytes
  | none => mem
  | some page => Function.update mem k page

/-- The pool stands for the memory, and only pages of the files in `S` wait to be written. -/
def Shown (n : Nat) (S : Int → Prop) (mem : PageKey → Bytes) (pages : Int → Nat) (pool : BufferPool)
    (files : DataFiles) : Prop :=
  Cached n mem pages pool files ∧ DirtyIn n S pool

/-- The same with a page in frame `i`. -/
def ShownAt (n : Nat) (S : Int → Prop) (mem : PageKey → Bytes) (pages : Int → Nat) (k : PageKey) (i : Nat)
    (unmarked : Bool) (pool : BufferPool) (files : DataFiles) : Prop :=
  (Held n pool files mem k i unmarked ∧ ∀ fd, files.pages fd = pages fd) ∧ DirtyIn n S pool

section Pages

variable {α : Type} {n : Nat} {S : Int → Prop} {mem : PageKey → Bytes} {pages : Int → Nat} {r r' : TableRest}
  {table : Table} {pageId : Nat}

/-- A fetch of an existing page. -/
theorem fetchPage_shown (hn : 0 < n) (hn' : n < 2 ^ 30) (hin : pageId < pages table.dataFd) {s : TableEnv}
    (hs : Shows (Shown n S mem pages) r s) : ∃ i s', fetchPage table pageId s = .ok (some i, s') ∧
      Shows (ShownAt n S mem pages ⟨table.dataFd, pageId⟩ i false) r s' ∧
      (s'.pool.frames i).buf = mem ⟨table.dataFd, pageId⟩ := by
  obtain ⟨⟨⟨hquiet, hpages⟩, hdirty⟩, rfl, hio⟩ := hs
  obtain ⟨pool', files', i, hrun, hheld, hbuf, hsame⟩ :=
    hquiet.fetch hn hn' (k := ⟨table.dataFd, pageId⟩) (by rw [hpages]; exact hin)
  have hdirty' : DirtyIn n S (bufferPoolFetch s.pool s.files ⟨table.dataFd, pageId⟩ IoScript.ok).1 :=
    hdirty.fetch _ _
  rw [hrun] at hdirty'
  refine ⟨i, { s with pool := pool', files := files', io := s.io.drop 2 }, ?_,
    ⟨⟨⟨hheld, fun fd => (hsame fd).trans (hpages fd)⟩, hdirty'⟩, rfl, ?_⟩, hbuf⟩
  · unfold fetchPage Prog.act
    dsimp only
    rw [hio, hrun]
  · dsimp only
    rw [hio]
    rfl

/-- The page is perhaps written, and given back. -/
theorem Runs.giveBack (hn : 0 < n) (hn' : n < 2 ^ 30) {i : Nat} {w : Option Bytes} (a : α)
    (hw : ∀ page, w = some page → page.length = PAGE_SIZE ∧ S table.dataFd) :
    Runs (ShownAt n S mem pages ⟨table.dataFd, pageId⟩ i false) r
      (do
        writePage table pageId i w
        unpinPage table pageId
        Pure.pure a)
      a (Shown n S (afterVisit mem ⟨table.dataFd, pageId⟩ w) pages) r := by
  have hwrite : Runs (ShownAt n S mem pages ⟨table.dataFd, pageId⟩ i false) r (writePage table pageId i w) ()
      (ShownAt n S (afterVisit mem ⟨table.dataFd, pageId⟩ w) pages ⟨table.dataFd, pageId⟩ i false) r := by
    cases w with
    | none => exact Runs.pure ()
    | some page =>
      obtain ⟨hlen, hS⟩ := hw page rfl
      have hstore : Runs (ShownAt n S mem pages ⟨table.dataFd, pageId⟩ i false) r (storePage i page) ()
          (ShownAt n S (afterVisit mem ⟨table.dataFd, pageId⟩ (some page)) pages ⟨table.dataFd, pageId⟩ i
            true) r :=
        Runs.act fun s hs => ⟨rfl, ⟨⟨hs.pool.1.1.write hlen, hs.pool.1.2⟩,
          hs.pool.2.keepFrame i rfl rfl rfl⟩, hs.rest, hs.io⟩
      exact hstore.bind (Runs.act fun s hs => ⟨rfl, ⟨⟨hs.pool.1.1.markDirty hn hn', hs.pool.1.2⟩,
        hs.pool.2.markDirty hs.pool.1.1.shape hn hn' hS⟩, hs.rest, hs.io⟩)
  have hunpin : Runs (ShownAt n S (afterVisit mem ⟨table.dataFd, pageId⟩ w) pages ⟨table.dataFd, pageId⟩ i
      false) r (unpinPage table pageId) () (Shown n S (afterVisit mem ⟨table.dataFd, pageId⟩ w) pages) r :=
    Runs.act fun s hs => ⟨rfl, ⟨⟨hs.pool.1.1.unpin hn hn', hs.pool.1.2⟩, hs.pool.2.unpin _⟩, hs.rest, hs.io⟩
  exact hwrite.bind (hunpin.bind (Runs.pure a))

theorem Runs.visitShown (hn : 0 < n) (hn' : n < 2 ^ 30) (hin : pageId < pages table.dataFd)
    {fail a : α} {body : Bytes → TableProg (α × Option Bytes)} {w : Option Bytes}
    (hbody : Steps r (body (mem ⟨table.dataFd, pageId⟩)) (a, w) r')
    (hw : ∀ page, w = some page → page.length = PAGE_SIZE ∧ S table.dataFd) :
    Runs (Shown n S mem pages) r (visitPage table pageId fail body) a
      (Shown n S (afterVisit mem ⟨table.dataFd, pageId⟩ w) pages) r' := by
  let fetched := fun i (pool : BufferPool) (files : DataFiles) =>
    ShownAt n S mem pages ⟨table.dataFd, pageId⟩ i false pool files ∧
      (pool.frames i).buf = mem ⟨table.dataFd, pageId⟩
  have hfetch : Prog.Meets (Shows (Shown n S mem pages) r) (fetchPage table pageId) fun f s =>
      ∃ i, f = some i ∧ Shows (fetched i) r s := by
    intro s hs
    obtain ⟨i, s', hrun, hat, hbuf⟩ := fetchPage_shown hn hn' hin hs
    exact ⟨some i, s', hrun, i, rfl, ⟨hat.pool, hbuf⟩, hat.rest, hat.io⟩
  refine Prog.Meets.bind hfetch fun f => ?_
  rintro s ⟨i, rfl, hs⟩
  have hread : Runs (fetched i) r (pageAt i) (mem ⟨table.dataFd, pageId⟩)
      (ShownAt n S mem pages ⟨table.dataFd, pageId⟩ i false) r :=
    fun s hs => ⟨_, s, rfl, hs.pool.2, hs.pool.1, hs.rest, hs.io⟩
  exact hread.bind ((hbody _).bind (Runs.giveBack hn hn' a hw)) s hs

/-- **A visit** of an existing page reads and writes the memory. -/
theorem Runs.visit (hn : 0 < n) (hn' : n < 2 ^ 30) (hin : pageId < pages table.dataFd)
    {fail a : α} {body : Bytes → TableProg (α × Option Bytes)} {w : Option Bytes}
    (hbody : Steps r (body (mem ⟨table.dataFd, pageId⟩)) (a, w) r')
    (hw : ∀ page, w = some page → page.length = PAGE_SIZE) :
    Runs (Cached n mem pages) r (visitPage table pageId fail body) a
      (Cached n (afterVisit mem ⟨table.dataFd, pageId⟩ w) pages) r' := by
  -- any file may wait to be written to
  refine (Runs.visitShown (S := fun _ => True) hn hn' hin hbody fun page heq => ⟨hw page heq, trivial⟩).conseq
    (fun s hs => ⟨⟨hs.pool, fun _ _ _ => trivial⟩, hs.rest, hs.io⟩) fun _ _ h => ⟨h.1, h.2.pool.1, h.2.rest, h.2.io⟩

/-- **A new page.** -/
theorem Runs.alloc (hn : 0 < n) (hn' : n < 2 ^ 30) (hfew : pages table.dataFd < 2 ^ 32) :
    Runs (Cached n mem pages) r (allocPage table) (pages table.dataFd)
      (Cached n (Function.update mem ⟨table.dataFd, pages table.dataFd⟩
          (pageInitHeader (pages table.dataFd) (etpRecordSize table.id)))
        (Function.update pages table.dataFd (pages table.dataFd + 1))) r := by
  refine Runs.act fun s hs => ?_
  obtain ⟨⟨hquiet, hpages⟩, rfl, hio⟩ := hs
  have hsize : etpRecordSize table.id ≠ 0 := by cases table.id <;> decide
  obtain ⟨file, hrun, hquiet', hpages'⟩ := hquiet.alloc hn hn' hsize (by rw [hpages]; exact hfew)
  dsimp only
  rw [show s.io = IoScript.ok from hio, IoScript.ok_apply, hrun]
  refine ⟨hpages _, ⟨?_, fun fd => ?_⟩, rfl, rfl⟩
  · rw [hpages] at hquiet'
    exact hquiet'
  · dsimp only
    rw [hpages', hpages, hpages, Function.update_apply]

/-- `page_get_count` of a file of fewer than `2 ^ 32` pages. -/
theorem Runs.pageCount (hfew : pages table.dataFd < 2 ^ 32) :
    Runs (Cached n mem pages) r (Ticketing.pageCount table) (pages table.dataFd) (Cached n mem pages) r := by
  refine Runs.reads fun s hs => ?_
  rw [← hs.pool.2] at hfew ⊢
  exact Nat.mod_eq_of_lt hfew

end Pages

end Ticketing
