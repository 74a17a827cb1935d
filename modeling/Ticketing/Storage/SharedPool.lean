import Ticketing.Lib.Runs
import Ticketing.Storage.OwnFileCalls

/-!
# Tables that are opened and closed over one pool (`server/storage/table.h`)

`table_close` flushes the pool and leaves its frames as they are, under a descriptor that the operating system
may give to the next data file.

* `TableProcess`, `ProcessAct`, `TableProcess.step` — a process that creates, opens, uses and closes tables,
  over one pool (`Pooling.shared`) or with a pool for each open table (`Pooling.own`).
* `TableProcess.Assumed` — what the operating system and the callers keep to; `Fresh` — the pool has no other
  file's pages under a descriptor that is handed out.
* `Mirrors` — the process with one pool and the one with many show the same pages of every table, and so they
  do after one act (`Mirrors.step`).
* `closed_tables_leave_nothing` — with fresh descriptors both answer alike; `closed_table_seen` — a table that
  shows the records of a closed one.
-/

set_option autoImplicit false

namespace Ticketing

open Bytes BufferPool

/-- An open table. -/
structure OpenTable where
  fd : Int
  index : BTree

/-- The tables of a process, by name.  `data` has the data files of the tables that are not open; each pool
comes with the files that its descriptors lead to. -/
structure TableProcess (ν : Type) where
  opened : ν → Option OpenTable
  data : ν → Bytes
  indexFile : ν → Bytes
  pools : Option ν → BufferPool × DataFiles
  wal : Wal
  nextId : TableId → Nat

/-- One pool for all tables, or one of so many frames for each table that is opened. -/
inductive Pooling where
  | shared
  | own (frames : Nat)

/-- What the process does: tables are created and opened with the descriptor that `open` returns. -/
inductive ProcessAct (ν : Type) where
  | create (x : ν) (fd : Int)
  | open (x : ν) (fd : Int) (alloc : Nat → Bool)
  | close (x : ν)
  | call (x : ν) (c : RowCall)

/-- What it gets. -/
inductive ProcessResult where
  | opened (ok : Bool)
  | closed
  | called (r : RowResult)
  /-- There is no such table open. -/
  | none

/-- If the frame is in use under the descriptor, then with a page of the file. -/
def Frame.HasPageOf (f : Frame) (fd : Int) (data : Bytes) : Prop :=
  f.valid = true → f.key.fd = fd → f.key.pageId < data.length / PAGE_SIZE ∧ f.buf = pageRead data f.key.pageId

instance (f : Frame) (fd : Int) (data : Bytes) : Decidable (f.HasPageOf fd data) :=
  inferInstanceAs (Decidable (_ → _))

section Process

variable {ν : Type} [DecidableEq ν]

/-- The pool of a table. -/
def Pooling.owner : Pooling → ν → Option ν
  | .shared, _ => none
  | .own _, x => some x

/-- A data file gets a descriptor. -/
def Pooling.attach (m : Pooling) (w : BufferPool × DataFiles) (fd : Int) (data : Bytes) :
    BufferPool × DataFiles :=
  match m with
  | .shared => (w.1, Function.update w.2 fd data)
  | .own n => (bufferPoolCreate n, Function.update (fun _ => []) fd data)

namespace TableProcess

/-- What a call on a table works on. -/
def env (s : TableProcess ν) (owner : Option ν) (index : BTree) : TableEnv :=
  ⟨index, (s.pools owner).1, (s.pools owner).2, s.wal, s.nextId, IoScript.ok⟩

/-- The process after a call on a table. -/
def put (s : TableProcess ν) (owner : Option ν) (e : TableEnv) : TableProcess ν :=
  { s with pools := Function.update s.pools owner (e.pool, e.files), wal := e.wal, nextId := e.nextId }

/-- The data file of a table gets a descriptor. -/
def attach (m : Pooling) (s : TableProcess ν) (x : ν) (fd : Int) (data : Bytes) : TableProcess ν :=
  { s with pools := Function.update s.pools (m.owner x) (m.attach (s.pools (m.owner x)) fd data) }

/-- A table is open. -/
def withTable (s : TableProcess ν) (x : ν) (t : OpenTable) : TableProcess ν :=
  { s with opened := Function.update s.opened x (some t) }

/-- `table_create`. -/
def create (m : Pooling) (s : TableProcess ν) (x : ν) (fd : Int) : TableProcess ν :=
  let index := btreeSave (btreeCreate BTREE_DEFAULT_ORDER)
  let s := s.attach m x fd []
  { s with indexFile := Function.update s.indexFile x index.2 }.withTable x ⟨fd, index.1⟩

/-- A process that has no table open yet. -/
def start (n : Nat) (wal : Wal) (data indexFile : ν → Bytes) : TableProcess ν where
  opened := fun _ => none
  data := data
  indexFile := indexFile
  pools := fun _ => (bufferPoolCreate n, fun _ => [])
  wal := wal
  nextId := fun _ => 1

variable (kind : ν → TableId) (m : Pooling)

/-- One act.  An access out of bounds ends it where it is. -/
def step (s : TableProcess ν) : ProcessAct ν → Except BadAccess ProcessResult × TableProcess ν
  | .create x fd => (.ok (.opened true), s.create m x fd)
  | .open x fd alloc =>
    let s' := s.attach m x fd (s.data x)
    match tableOpen ⟨kind x, fd⟩ alloc (s.indexFile x)
      (s'.env (m.owner x) (btreeCreate BTREE_DEFAULT_ORDER)) with
    | .error e => (.error e, s)
    | .ok (true, e) => (.ok (.opened true), (s'.put (m.owner x) e).withTable x ⟨fd, e.pkIndex⟩)
    | .ok (false, e) =>
      (.ok (.opened false), { s'.put (m.owner x) e with data := Function.update s.data x (e.files fd) })
  | .close x =>
    match s.opened x with
    | none => (.ok .none, s)
    | some t =>
      match tableClose (s.env (m.owner x) t.index) with
      | .error e => (.error e, s)
      | .ok (file, e) =>
        (.ok .closed, { s.put (m.owner x) e with
          opened := Function.update s.opened x none
          data := Function.update s.data x (e.files t.fd)
          indexFile := Function.update s.indexFile x (file.getD (s.indexFile x)) })
  | .call x c =>
    match s.opened x with
    | none => (.ok .none, s)
    | some t =>
      match c.prog ⟨kind x, t.fd⟩ (s.env (m.owner x) t.index) with
      | .error e => (.error e, s)
      | .ok (r, e) => (.ok (.called r), (s.put (m.owner x) e).withTable x ⟨t.fd, e.pkIndex⟩)

/-- The table is not open, and the descriptor is not that of an open file. -/
def Handed (s : TableProcess ν) (x : ν) (fd : Int) : Prop :=
  s.opened x = none ∧ ∀ y, (s.opened y).map OpenTable.fd ≠ some fd

/-- The operating system gives out descriptors that are not open, a table is opened once, and data files stay
below `2 ^ 32` pages. -/
def Assumed (s : TableProcess ν) : ProcessAct ν → Prop
  | .create x fd => s.Handed x fd
  | .open x fd _ => s.Handed x fd
  | .call x c => ∀ t ∈ s.opened x, (s.pools none).2.pages t.fd + c.growth < 2 ^ 32
  | _ => True

/-- The frames that the shared pool has under a descriptor are pages of the file that gets it. -/
def NoneStale (s : TableProcess ν) (fd : Int) (data : Bytes) : Prop :=
  ∀ i < (s.pools none).1.numFrames, ((s.pools none).1.frames i).HasPageOf fd data

/-- A file is opened under a descriptor that the shared pool has no other file's pages for. -/
def Fresh (s : TableProcess ν) : ProcessAct ν → Prop
  | .create _ fd => s.NoneStale fd []
  | .open x fd _ => s.NoneStale fd (s.data x)
  | _ => True

section Decidable

variable [Fintype ν] (s : TableProcess ν)

instance (x : ν) (fd : Int) : Decidable (s.Handed x fd) := inferInstanceAs (Decidable (_ ∧ _))

instance (fd : Int) (data : Bytes) : Decidable (s.NoneStale fd data) := Nat.decidableBallLT _ _

instance : ∀ act : ProcessAct ν, Decidable (s.Assumed act)
  | .create x fd => inferInstanceAs (Decidable (s.Handed x fd))
  | .open x fd _ => inferInstanceAs (Decidable (s.Handed x fd))
  | .call x c => inferInstanceAs (Decidable (∀ t ∈ s.opened x, (s.pools none).2.pages t.fd + c.growth < 2 ^ 32))
  | .close _ => isTrue trivial

instance : ∀ act : ProcessAct ν, Decidable (s.Fresh act)
  | .create _ fd => inferInstanceAs (Decidable (s.NoneStale fd []))
  | .open x fd _ => inferInstanceAs (Decidable (s.NoneStale fd (s.data x)))
  | .call _ _ => isTrue trivial
  | .close _ => isTrue trivial

end Decidable

end TableProcess

end Process

/-! ## Files and pools -/

/-- The whole pages of a file. -/
def pagesOf (file : Bytes) : List Bytes := (List.range (file.length / PAGE_SIZE)).map (pageRead file)

section Pools

variable {n : Nat} {S S' : Int → Prop} {mem : PageKey → Bytes} {pages : Int → Nat} {pool : BufferPool}
  {files : DataFiles} {fd : Int}

theorem Shown.mono (h : Shown n S mem pages pool files) (hS : ∀ fd, S fd → S' fd) :
    Shown n S' mem pages pool files := ⟨h.1, fun i hi hd => hS _ (h.2 i hi hd)⟩

/-- A file gets a descriptor that the pool has no other pages for. -/
theorem Quiet.attach (h : Quiet n pool files mem) {data : Bytes}
    (hfd : ∀ i < n, (pool.frames i).HasPageOf fd data) :
    Quiet n pool (Function.update files fd data)
      fun k => if k.fd = fd then pageRead data k.pageId else mem k := by
  have hother : ∀ k : PageKey, k.fd ≠ fd → DataFiles.page (Function.update files fd data) k = files.page k ∧
      DataFiles.pages (Function.update files fd data) k.fd = files.pages k.fd := fun k hk => by
    unfold DataFiles.page DataFiles.pages
    rw [Function.update_of_ne hk]
    exact ⟨rfl, rfl⟩
  refine ⟨h.shape, fun i hi => ?_, fun k hk => ⟨rfl, fun hin => ?_⟩, h.unmarked⟩
  · by_cases heq : (pool.frames i).key.fd = fd
    · obtain ⟨hin, hbuf⟩ := hfd i hi.1 hi.2 heq
      have hmem : (if (pool.frames i).key.fd = fd then pageRead data (pool.frames i).key.pageId
          else mem (pool.frames i).key) = pageRead data (pool.frames i).key.pageId := if_pos heq
      refine ⟨hbuf.trans hmem.symm, (h.frame i hi).length, (h.frame i hi).pins, (h.frame i hi).bound, ?_,
        (h.frame i hi).ptr, Or.inr (Or.inr ?_)⟩
      · show _ < DataFiles.pages (Function.update files fd data) (pool.frames i).key.fd
        rw [DataFiles.pages, heq, Function.update_self]
        exact hin
      · show DataFiles.page (Function.update files fd data) (pool.frames i).key = _
        rw [DataFiles.page, heq, Function.update_self]
        exact hmem.symm
    · obtain ⟨hpage, hpages⟩ := hother _ heq
      exact (h.frame i hi).congr (if_neg heq) rfl rfl rfl hpage (Nat.le_of_eq hpages.symm)
  · dsimp only at hin ⊢
    rcases eq_or_ne k.fd fd with heq | hne
    · rw [if_pos heq, DataFiles.page, heq, Function.update_self]
    · rw [if_neg hne]
      obtain ⟨hpage, hpages⟩ := hother k hne
      rw [hpages] at hin
      exact hpage.trans ((h.out k hk).page hin)

theorem Shown.attach (h : Shown n S mem pages pool files) {data : Bytes}
    (hfd : ∀ i < n, (pool.frames i).HasPageOf fd data) : ∃ mem' pages',
    Shown n S mem' pages' pool (Function.update files fd data) ∧ filePages fd mem' pages' = pagesOf data ∧
      OnlyFile fd mem mem' pages pages' := by
  obtain ⟨⟨hquiet, hpages⟩, hdirty⟩ := h
  refine ⟨_, Function.update pages fd (data.length / PAGE_SIZE), ⟨⟨hquiet.attach hfd, fun fd' => ?_⟩, hdirty⟩,
    ?_, fun k hk => if_neg hk, fun fd' hne => Function.update_of_ne hne _ _⟩
  · unfold DataFiles.pages
    rcases eq_or_ne fd' fd with rfl | hne
    · rw [Function.update_self, Function.update_self]
    · rw [Function.update_of_ne hne, Function.update_of_ne hne]
      exact hpages fd'
  · unfold filePages pagesOf
    rw [Function.update_self]
    refine List.map_congr_left fun p _ => ?_
    exact if_pos rfl

/-- A new pool over some files. -/
theorem shown_create (hn' : n < 2 ^ 30) (files : DataFiles) (S : Int → Prop) :
    Shown n S files.page files.pages (bufferPoolCreate n) files :=
  ⟨⟨quiet_create hn' files, fun _ => rfl⟩, fun _ hi _ => by cases hi.2⟩

/-- The pages of a file that no pool has. -/
theorem filePages_files (files : DataFiles) (fd : Int) :
    filePages fd files.page files.pages = pagesOf (files fd) := rfl

/-- A file without pages that wait to be written. -/
theorem Shown.pagesOf (h : Shown n S mem pages pool files) (hfd : ¬ S fd) :
    Ticketing.pagesOf (files fd) = filePages fd mem pages := by
  unfold Ticketing.pagesOf filePages
  rw [show (files fd).length / PAGE_SIZE = pages fd from h.1.2 fd]
  refine List.map_congr_left fun p hp => ?_
  have hdisk : files.page ⟨fd, p⟩ = mem ⟨fd, p⟩ := h.disk hfd (List.mem_range.mp hp)
  exact hdisk

end Pools

/-- The page that a pool shows: that in a frame, or that in the file. -/
def shownPage (w : BufferPool × DataFiles) (k : PageKey) : Bytes :=
  match (List.range w.1.numFrames).find? fun i => (w.1.frames i).valid && decide ((w.1.frames i).key = k) with
  | some i => (w.1.frames i).buf
  | none => w.2.page k

/-- The pages that a pool shows under a descriptor. -/
def shownFile (w : BufferPool × DataFiles) (fd : Int) : List Bytes := filePages fd (shownPage w) w.2.pages

section Shown

variable {n : Nat} {S : Int → Prop} {mem : PageKey → Bytes} {pages : Int → Nat} {w : BufferPool × DataFiles}

theorem shownPage_eq (h : Shown n S mem pages w.1 w.2) {k : PageKey} (hin : k.pageId < pages k.fd) :
    shownPage w k = mem k := by
  obtain ⟨⟨hquiet, hpages⟩, -⟩ := h
  unfold shownPage
  split
  · rename_i i hfound
    have hkey := List.find?_some hfound
    have hi := List.mem_range.mp (List.mem_of_find?_eq_some hfound)
    rw [Bool.and_eq_true, decide_eq_true_eq] at hkey
    rw [hquiet.shape.numFrames] at hi
    rw [(hquiet.frame i ⟨hi, hkey.1⟩).buf, hkey.2]
  · rename_i hnone
    refine (hquiet.out k fun i hi heq => ?_).page (by rw [hpages]; exact hin)
    refine List.find?_eq_none.mp hnone i (List.mem_range.mpr ?_) ?_
    · rw [hquiet.shape.numFrames]
      exact hi.1
    · rw [hi.2, heq, decide_eq_true rfl, Bool.and_self]

theorem shownFile_eq (h : Shown n S mem pages w.1 w.2) {fd : Int} : shownFile w fd = filePages fd mem pages :=
  filePages_congr (h.1.2 fd) fun _ hp => shownPage_eq h hp

end Shown

/-- The data files are short enough, and the index files lead into them. -/
def FilesFit {ν : Type} (data indexFile : ν → Bytes) : Prop :=
  ∀ x, (pagesOf (data x)).length < 2 ^ 32 ∧ IndexLeads (pagesOf (data x)).length (indexFile x)

/-- Closed tables have left nothing behind in the pool of the process `s`, by comparison with the process `t`
that has a pool for each open table: files and open tables have the same pages, and what waits to be written is
a page of an open table. -/
structure TableProcess.NothingLeft {ν : Type} (s t : TableProcess ν) : Prop where
  opened : t.opened = s.opened
  data : ∀ x, pagesOf (t.data x) = pagesOf (s.data x)
  shown : ∀ x a, s.opened x = some a → shownFile (s.pools none) a.fd = shownFile (t.pools (some x)) a.fd
  waiting : ∀ i < (s.pools none).1.numFrames, ((s.pools none).1.frames i).valid = true →
    ((s.pools none).1.frames i).dirty = true →
      ∃ x a, s.opened x = some a ∧ a.fd = ((s.pools none).1.frames i).key.fd ∧
        (shownFile (t.pools (some x)) a.fd)[((s.pools none).1.frames i).key.pageId]? =
          some ((s.pools none).1.frames i).buf

/-! ## Two pools -/

/-- Two environments whose pools show the same pages of a file, one after a function that has worked on it. -/
structure LeftAlike (n m : Nat) (S S₁ : Int → Prop) (fd : Int) (mem : PageKey → Bytes) (pages : Int → Nat)
    (Q : TableRest → List Bytes → Prop) (s t : TableEnv) : Prop where
  index : t.pkIndex = s.pkIndex
  wal : t.wal = s.wal
  nextId : t.nextId = s.nextId
  shown : ∃ mem' pages', Shown n S mem' pages' s.pool s.files ∧ OnlyFile fd mem mem' pages pages' ∧
    Q s.rest (filePages fd mem' pages') ∧
      ∃ mem₁ pages₁, Shown m S₁ mem₁ pages₁ t.pool t.files ∧ filePages fd mem₁ pages₁ = filePages fd mem' pages'

/-- A function that works on one file ends alike over two pools that show the same pages of it. -/
theorem Settles.both {α : Type} {n m : Nat} {S S₁ : Int → Prop} {mem mem₁ : PageKey → Bytes}
    {pages pages₁ : Int → Nat} {w : Prop} {table : Table} {r : TableRest} {F : List Bytes} {p : TableProg α}
    {Q : α → TableRest → List Bytes → Prop} {s t : TableEnv} (h : Settles w table r F p Q) (hn : 0 < n)
    (hn' : n < 2 ^ 30) (hm : 0 < m) (hm' : m < 2 ^ 30) (hw : w → S table.dataFd) (hw₁ : w → S₁ table.dataFd)
    (hF : filePages table.dataFd mem pages = F) (hF₁ : filePages table.dataFd mem₁ pages₁ = F)
    (hs : Shows (Shown n S mem pages) r s) (ht : Shows (Shown m S₁ mem₁ pages₁) r t) :
    (∃ e, p s = .error e ∧ p t = .error e) ∨ ∃ a s' t', p s = .ok (a, s') ∧ p t = .ok (a, t') ∧
      LeftAlike n m S S₁ table.dataFd mem pages (Q a) s' t' := by
  obtain ⟨out, hends, hQ⟩ := h
  have hs := hends n S mem pages s hn hn' hw hF hs
  have ht := hends m S₁ mem₁ pages₁ t hm hm' hw₁ hF₁ ht
  cases out with
  | error e => exact Or.inl ⟨e, hs, ht⟩
  | ok y =>
    obtain ⟨a, r', F'⟩ := y
    obtain ⟨mem', pages', s', hrun, ⟨hshown, rfl, -⟩, rfl, honly⟩ := hs
    obtain ⟨mem₁', pages₁', t', hrun', ⟨hshown', hrest, -⟩, hsame, -⟩ := ht
    refine Or.inr ⟨a, s', t', hrun, hrun', congrArg TableRest.pkIndex hrest, congrArg TableRest.wal hrest,
      congrArg TableRest.nextId hrest, mem', pages', hshown, honly, hQ _ _ _ rfl, mem₁', pages₁', hshown', hsame⟩

/-! ## The two processes -/

/-- The descriptor of an open table. -/
def TableProcess.OpenFd {ν : Type} (s : TableProcess ν) (fd : Int) : Prop :=
  ∃ x a, s.opened x = some a ∧ a.fd = fd

/-- The two processes have the same tables open, and the same index files, log and counters. -/
structure SameTables {ν : Type} (s t : TableProcess ν) : Prop where
  opened : t.opened = s.opened
  indexFile : t.indexFile = s.indexFile
  wal : t.wal = s.wal
  nextId : t.nextId = s.nextId
  counters : ∀ id, s.nextId id < 2 ^ 32

theorem SameTables.rest {ν : Type} {s t : TableProcess ν} (h : SameTables s t) {owner : Option ν}
    {index : BTree} :
    (t.env owner index).rest = ⟨index, s.wal, s.nextId⟩ := by
  unfold TableEnv.rest TableProcess.env
  rw [h.wal, h.nextId]

/-- A pool of its own shows the pages `F` of an open table, and its index leads into them. -/
structure OwnMirror (m : Nat) (a : OpenTable) (index : Bytes) (F : List Bytes) (own : BufferPool × DataFiles) :
    Prop where
  few : F.length < 2 ^ 32
  leads : a.index.Leads F.length
  file : IndexLeads F.length index
  own : ∃ mem pages, Shown m (fun _ => True) mem pages own.1 own.2 ∧ filePages a.fd mem pages = F

/-- One table in both processes. -/
structure TableMirror {ν : Type} (m : Nat) (s t : TableProcess ν) (mem : PageKey → Bytes) (pages : Int → Nat)
    (x : ν) : Prop where
  data : pagesOf (t.data x) = pagesOf (s.data x)
  few : (pagesOf (s.data x)).length < 2 ^ 32
  closed : s.opened x = none → IndexLeads (pagesOf (s.data x)).length (s.indexFile x)
  opened : ∀ a, s.opened x = some a → OwnMirror m a (s.indexFile x) (filePages a.fd mem pages) (t.pools (some x))

/-- The process `s` with one pool, which stands for `mem`, and the process `t` with a pool for each table show
the same. -/
structure Mirrors {ν : Type} (n m : Nat) (s t : TableProcess ν) (mem : PageKey → Bytes) (pages : Int → Nat) :
    Prop where
  agree : SameTables s t
  distinct : ∀ x y a b, s.opened x = some a → s.opened y = some b → a.fd = b.fd → x = y
  shown : Shown n s.OpenFd mem pages (s.pools none).1 (s.pools none).2
  tables : ∀ x, TableMirror m s t mem pages x

/-- Nothing has changed for other tables. -/
structure OnlyTable {ν : Type} (x : ν) (s s' : TableProcess ν) : Prop where
  opened : ∀ y, y ≠ x → s'.opened y = s.opened y
  data : ∀ y, y ≠ x → s'.data y = s.data y
  indexFile : ∀ y, y ≠ x → s'.indexFile y = s.indexFile y
  pools : ∀ y, y ≠ x → s'.pools (some y) = s.pools (some y)

section Mirror

variable {ν : Type} {n m : Nat} {s t s' t' : TableProcess ν} {mem mem' : PageKey → Bytes}
  {pages pages' : Int → Nat} {x : ν} {fd : Int}

/-- What happens to another table does not matter. -/
theorem TableMirror.frame {y : ν} (h : TableMirror m s t mem pages y) (hs : OnlyTable x s s')
    (ht : OnlyTable x t t') (hy : y ≠ x) (honly : OnlyFile fd mem mem' pages pages') (hfd : ∀ a, s.opened y = some a → a.fd ≠ fd) :
    TableMirror m s' t' mem' pages' y := by
  refine ⟨by rw [hs.data y hy, ht.data y hy]; exact h.data, by rw [hs.data y hy]; exact h.few, fun hnone => ?_,
    fun a ha => ?_⟩
  · rw [hs.opened y hy] at hnone
    rw [hs.data y hy, hs.indexFile y hy]
    exact h.closed hnone
  · rw [hs.opened y hy] at ha
    have hne := hfd a ha
    rw [hs.indexFile y hy, ht.pools y hy,
      filePages_congr (honly.2 _ hne) fun p _ => honly.1 ⟨a.fd, p⟩ hne]
    exact h.opened a ha

/-- **An act on one table**, which has or gets the descriptor `fd`. -/
theorem Mirrors.act (h : Mirrors n m s t mem pages) (hs : OnlyTable x s s') (ht : OnlyTable x t t')
    (hagree : SameTables s' t') (honly : OnlyFile fd mem mem' pages pages')
    (hfd : ∀ y a, y ≠ x → s.opened y = some a → a.fd ≠ fd) (hx : ∀ a, s'.opened x = some a → a.fd = fd)
    (hshown : Shown n s'.OpenFd mem' pages' (s'.pools none).1 (s'.pools none).2)
    (htable : TableMirror m s' t' mem' pages' x) : Mirrors n m s' t' mem' pages' := by
  refine ⟨hagree, fun y z a b ha hb heq => ?_, hshown, fun y => ?_⟩
  · by_cases hy : y = x
    · by_cases hz : z = x
      · exact hy.trans hz.symm
      · subst hy
        rw [hs.opened z hz] at hb
        exact absurd (heq.symm.trans (hx a ha)) (hfd z b hz hb)
    · rw [hs.opened y hy] at ha
      by_cases hz : z = x
      · subst hz
        exact absurd (heq.trans (hx b hb)) (hfd y a hy ha)
      · rw [hs.opened z hz] at hb
        exact h.distinct y z a b ha hb heq
  · by_cases hy : y = x
    · subst hy
      exact htable
    · exact (h.tables y).frame hs ht hy honly fun a ha => hfd y a hy ha

theorem OnlyTable.trans {s'' : TableProcess ν} (h : OnlyTable x s s') (h' : OnlyTable x s' s'') :
    OnlyTable x s s'' :=
  ⟨fun y hy => (h'.opened y hy).trans (h.opened y hy), fun y hy => (h'.data y hy).trans (h.data y hy),
    fun y hy => (h'.indexFile y hy).trans (h.indexFile y hy), fun y hy => (h'.pools y hy).trans (h.pools y hy)⟩

/-- A data file gets a descriptor that the shared pool has no other pages for. -/
theorem Mirrors.attach (h : Mirrors n m s t mem pages) {data : Bytes} (hfresh : s.NoneStale fd data) :
    ∃ mem' pages',
    Shown n s.OpenFd mem' pages' (s.pools none).1 (Function.update (s.pools none).2 fd data) ∧
      filePages fd mem' pages' = pagesOf data ∧ OnlyFile fd mem mem' pages pages' := by
  refine h.shown.attach fun i hi => hfresh i ?_
  rw [h.shown.1.1.shape.numFrames]
  exact hi

theorem Mirrors.other (h : Mirrors n m s t mem pages) {a : OpenTable} (ha : s.opened x = some a) :
    ∀ y b, y ≠ x → s.opened y = some b → b.fd ≠ a.fd :=
  fun y b hy hb heq => hy (h.distinct y x b a hb ha heq)

variable [DecidableEq ν]

theorem pools_owner (k : Pooling) {y : ν} (hy : y ≠ x) (w : BufferPool × DataFiles) :
    Function.update s.pools (k.owner x) w (some y) = s.pools (some y) := by
  refine Function.update_of_ne (fun heq => ?_) _ _
  cases k with
  | shared => cases heq
  | own => exact hy (Option.some.inj heq)

theorem onlyTable_attach (k : Pooling) (data : Bytes) : OnlyTable x s (s.attach k x fd data) :=
  ⟨fun _ _ => rfl, fun _ _ => rfl, fun _ _ => rfl, fun _ hy => pools_owner k hy _⟩

theorem onlyTable_put (k : Pooling) (e : TableEnv) : OnlyTable x s (s.put (k.owner x) e) :=
  ⟨fun _ _ => rfl, fun _ _ => rfl, fun _ _ => rfl, fun _ hy => pools_owner k hy _⟩

theorem onlyTable_index (k : Pooling) {data file : Bytes} :
    OnlyTable x s { s.attach k x fd data with indexFile := Function.update s.indexFile x file } :=
  ⟨fun _ _ => rfl, fun _ _ => rfl, fun _ hy => Function.update_of_ne hy _ _, fun _ hy => pools_owner k hy _⟩

theorem pagesOf_update (data : ν → Bytes) (file : Bytes) :
    pagesOf (Function.update data x file x) = pagesOf file := by
  rw [Function.update_self]

theorem attach_pools (k : Pooling) (data : Bytes) :
    (s.attach k x fd data).pools (k.owner x) = k.attach (s.pools (k.owner x)) fd data :=
  Function.update_self _ _ _

theorem onlyTable_withTable (a : OpenTable) : OnlyTable x s (s.withTable x a) :=
  ⟨fun _ hy => Function.update_of_ne hy _ _, fun _ _ => rfl, fun _ _ => rfl, fun _ _ => rfl⟩

/-- A table that is open under the same descriptor, or has not been open. -/
theorem TableProcess.OpenFd.withTable {a : OpenTable} (hx : ∀ b, s.opened x = some b → b.fd = a.fd)
    (h : s.OpenFd fd) : (s.withTable x a).OpenFd fd := by
  obtain ⟨y, b, hb, rfl⟩ := h
  by_cases hy : y = x
  · subst hy
    exact ⟨y, a, Function.update_self _ _ _, (hx b hb).symm⟩
  · exact ⟨y, b, (Function.update_of_ne hy _ _).trans hb, rfl⟩

/-- An act after which the table is open. -/
theorem Mirrors.leaveOpen (h : Mirrors n m s t mem pages) {index index' : BTree} (hindex : index' = index)
    (hs : OnlyTable x s s') (ht : OnlyTable x t t') (hopened : s'.opened = s.opened)
    (hdata : s'.data x = s.data x ∧ t'.data x = t.data x)
    (hagree : SameTables s' t') (honly : OnlyFile fd mem mem' pages pages')
    (hfd : ∀ y a, y ≠ x → s.opened y = some a → a.fd ≠ fd) (hx : ∀ a, s.opened x = some a → a.fd = fd)
    (hshown : Shown n s.OpenFd mem' pages' (s'.pools none).1 (s'.pools none).2)
    (hown : OwnMirror m ⟨fd, index⟩ (s'.indexFile x) (filePages fd mem' pages') (t'.pools (some x))) :
    Mirrors n m (s'.withTable x ⟨fd, index⟩) (t'.withTable x ⟨fd, index'⟩) mem' pages' := by
  subst hindex
  have hself : (s'.withTable x ⟨fd, index'⟩).opened x = some ⟨fd, index'⟩ := Function.update_self _ _ _
  refine h.act (hs.trans (onlyTable_withTable _)) (ht.trans (onlyTable_withTable _))
    ⟨?_, hagree.indexFile, hagree.wal, hagree.nextId, hagree.counters⟩ honly hfd (fun a ha => ?_)
    (hshown.mono fun fd' hfd' => ?_) ⟨?_, ?_, fun hnone => ?_, fun a ha => ?_⟩
  · show Function.update t'.opened x _ = Function.update s'.opened x _
    rw [hagree.opened]
  · cases hself.symm.trans ha
    rfl
  · unfold TableProcess.OpenFd at hfd'
    rw [← hopened] at hfd' hx
    exact TableProcess.OpenFd.withTable hx hfd'
  · show pagesOf (t'.data x) = pagesOf (s'.data x)
    rw [hdata.1, hdata.2]
    exact (h.tables x).data
  · show (pagesOf (s'.data x)).length < 2 ^ 32
    rw [hdata.1]
    exact (h.tables x).few
  · cases hself.symm.trans hnone
  · cases hself.symm.trans ha
    exact hown

omit [DecidableEq ν] in
/-- An act after which the table is not open. -/
theorem Mirrors.leaveClosed (h : Mirrors n m s t mem pages) (hs : OnlyTable x s s') (ht : OnlyTable x t t')
    (hnone : s'.opened x = none) (hagree : SameTables s' t') (honly : OnlyFile fd mem mem' pages pages')
    (hfd : ∀ y a, y ≠ x → s.opened y = some a → a.fd ≠ fd)
    (hshown : Shown n s'.OpenFd mem' pages' (s'.pools none).1 (s'.pools none).2) {F : List Bytes}
    (hdata : pagesOf (s'.data x) = F ∧ pagesOf (t'.data x) = F) (hfew : F.length < 2 ^ 32)
    (hindex : IndexLeads F.length (s'.indexFile x)) : Mirrors n m s' t' mem' pages' := by
  obtain ⟨rfl, hsame⟩ := hdata
  have hnot : ∀ a, s'.opened x ≠ some a := fun a ha => by cases hnone.symm.trans ha
  exact h.act hs ht hagree honly hfd (fun a ha => absurd ha (hnot a)) hshown
    ⟨hsame, hfew, fun _ => hindex, fun a ha => absurd ha (hnot a)⟩

/-- **`table_create`.** -/
theorem Mirrors.create (h : Mirrors n m s t mem pages) (hm' : m < 2 ^ 30) (hhanded : s.Handed x fd)
    (hfresh : s.NoneStale fd []) : ∃ mem' pages',
    Mirrors n m (s.create .shared x fd) (t.create (.own m) x fd) mem' pages' := by
  obtain ⟨hclosed, hfree⟩ := hhanded
  obtain ⟨mem', pages', hshown, hpages, honly⟩ := h.attach hfresh
  have hleads : (btreeCreate BTREE_DEFAULT_ORDER).Leads 0 := btreeCreate_leads (by decide) (by decide)
  have hpool : (s.create .shared x fd).pools none =
      ((s.pools none).1, Function.update (s.pools none).2 fd []) :=
    @attach_pools ν s x fd _ .shared []
  have hown : (t.create (.own m) x fd).pools (some x) =
      (bufferPoolCreate m, Function.update (fun _ => []) fd []) :=
    @attach_pools ν t x fd _ (.own m) []
  have hindex : (s.create .shared x fd).indexFile x = btreeFile (btreeCreate BTREE_DEFAULT_ORDER) :=
    Function.update_self _ _ _
  refine ⟨mem', pages', h.leaveOpen rfl (onlyTable_index .shared) (onlyTable_index (.own m)) rfl ⟨rfl, rfl⟩
    ⟨h.agree.opened, ?_, h.agree.wal, h.agree.nextId, h.agree.counters⟩ honly (fun y a _ ha heq =>
      hfree y (by rw [ha, Option.map_some, heq])) (fun a ha => by cases hclosed.symm.trans ha)
    (hpool.symm ▸ hshown) ?_⟩
  · show Function.update t.indexFile x _ = Function.update s.indexFile x _
    rw [h.agree.indexFile]
  · show OwnMirror m _ ((s.create .shared x fd).indexFile x) _ ((t.create (.own m) x fd).pools (some x))
    rw [hpages, hindex, hown]
    refine ⟨by decide, ⟨hleads.order, hleads.size, hleads.root⟩, hleads.saved (by decide), _, _,
      shown_create hm' _ _, ?_⟩
    exact congrArg pagesOf (@Function.update_self Int (fun _ => Bytes) _ fd [] fun _ => [])

/-- Both answer alike, and mirror each other afterwards. -/
def Alike (n m : Nat) (p q : Except BadAccess ProcessResult × TableProcess ν) : Prop :=
  q.1 = p.1 ∧ ∃ mem pages, Mirrors n m p.2 q.2 mem pages

variable {kind : ν → TableId} {k : Pooling} {a : OpenTable} {c : RowCall}

theorem step_call (ha : s.opened x = some a) :
    s.step kind k (.call x c) = match c.prog ⟨kind x, a.fd⟩ (s.env (k.owner x) a.index) with
      | .error e => (.error e, s)
      | .ok (r, e) => (.ok (.called r), (s.put (k.owner x) e).withTable x ⟨a.fd, e.pkIndex⟩) := by
  simp only [TableProcess.step, ha]

theorem put_pools (e : TableEnv) : (s.put (k.owner x) e).pools (k.owner x) = (e.pool, e.files) :=
  Function.update_self _ _ _

/-- **A call on a table.** -/
theorem Mirrors.call (h : Mirrors n m s t mem pages) (hn : 0 < n) (hn' : n < 2 ^ 30) (hm : 0 < m)
    (hm' : m < 2 ^ 30)
    (hroom : s.Assumed (.call x c)) :
    Alike n m (s.step kind .shared (.call x c)) (t.step kind (.own m) (.call x c)) := by
  cases ha : s.opened x with
  | none =>
    have ht : t.opened x = none := by rw [h.agree.opened, ha]
    simp only [TableProcess.step, ha, ht]
    exact ⟨rfl, mem, pages, h⟩
  | some a =>
    have ht : t.opened x = some a := by rw [h.agree.opened, ha]
    rw [step_call ha, step_call ht]
    obtain ⟨hfew, hleads, hfile, mem₁, pages₁, hown, hF⟩ := (h.tables x).opened a ha
    have hlong : (filePages a.fd mem pages).length + c.growth < 2 ^ 32 := by
      rw [length_filePages, ← h.shown.1.2]
      exact hroom a ha
    have hsettles : Settles True ⟨kind x, a.fd⟩ ⟨a.index, s.wal, s.nextId⟩ (filePages a.fd mem pages)
        (c.prog ⟨kind x, a.fd⟩) fun _ =>
          Lengthened (filePages a.fd mem pages).length c.growth :=
      RowCall.settles trivial ⟨hleads, h.agree.counters⟩ hlong
    have hs : Shows (Shown n s.OpenFd mem pages) ⟨a.index, s.wal, s.nextId⟩ (s.env none a.index) :=
      ⟨h.shown, rfl, rfl⟩
    have ht : Shows (Shown m (fun _ => True) mem₁ pages₁) ⟨a.index, s.wal, s.nextId⟩ (t.env (some x) a.index) :=
      ⟨hown, h.agree.rest, rfl⟩
    rcases hsettles.both hn hn' hm hm' (fun _ => ⟨x, a, ha, rfl⟩) (fun _ => trivial) rfl hF hs ht with
      ⟨e, hrun, hrun₁⟩ | ⟨b, e, e₁, hrun, hrun₁, hindex, hwal, hnext, hleft⟩
    · simp only [Pooling.owner, TableProcess.env] at hrun hrun₁ ⊢
      simp only [hrun, hrun₁]
      exact ⟨rfl, mem, pages, h⟩
    · obtain ⟨mem', pages', hshown, honly, ⟨hle, hle', hleading⟩, mem₁', pages₁', hshown₁, hF₁⟩ := hleft
      have hpool : (s.put none e).pools none = (e.pool, e.files) := @put_pools ν s x _ .shared e
      have hpool₁ : (t.put (some x) e₁).pools (some x) = (e₁.pool, e₁.files) := @put_pools ν t x _ (.own m) e₁
      simp only [Pooling.owner, TableProcess.env] at hrun hrun₁ ⊢
      simp only [hrun, hrun₁]
      exact ⟨rfl, mem', pages', h.leaveOpen hindex (onlyTable_put .shared e) (onlyTable_put (.own m) e₁) rfl
        ⟨rfl, rfl⟩ ⟨h.agree.opened, h.agree.indexFile, hwal, hnext, hleading.counters⟩ honly (h.other ha)
        (fun b hb => by cases ha.symm.trans hb; rfl) (hpool.symm ▸ hshown)
        ⟨Nat.lt_of_le_of_lt hle' hlong, hleading.index, hfile.mono hle, mem₁', pages₁',
          hpool₁.symm ▸ hshown₁, hF₁⟩⟩

theorem step_close (ha : s.opened x = some a) :
    s.step kind k (.close x) = match tableClose (s.env (k.owner x) a.index) with
      | .error e => (.error e, s)
      | .ok (file, e) =>
        (.ok .closed, { s.put (k.owner x) e with
          opened := Function.update s.opened x none
          data := Function.update s.data x (e.files a.fd)
          indexFile := Function.update s.indexFile x (file.getD (s.indexFile x)) }) := by
  simp only [TableProcess.step, ha]

/-- The index file that `table_close` leaves. -/
theorem closeResult_leads {t : BTree} {old : Bytes} {file : Option Bytes} {p : Nat} (h : t.Leads p)
    (hp : p < 2 ^ 32) (hold : IndexLeads p old) (hfile : closeResult t = .ok file) :
    IndexLeads p (file.getD old) := by
  obtain ⟨_, -, rfl⟩ := except_map_ok hfile
  split
  · exact h.saved (Nat.le_of_lt hp)
  · exact hold

/-- **`table_close`.** -/
theorem Mirrors.close (h : Mirrors n m s t mem pages) :
    Alike n m (s.step kind .shared (.close x)) (t.step kind (.own m) (.close x)) := by
  cases ha : s.opened x with
  | none =>
    have ht : t.opened x = none := by rw [h.agree.opened, ha]
    simp only [TableProcess.step, ha, ht]
    exact ⟨rfl, mem, pages, h⟩
  | some a =>
    have ht : t.opened x = some a := by rw [h.agree.opened, ha]
    rw [step_close ha, step_close ht]
    obtain ⟨hfew, hleads, hfile, mem₁, pages₁, hown, hF⟩ := (h.tables x).opened a ha
    have hrest : (t.env (some x) a.index).rest = ⟨a.index, s.wal, s.nextId⟩ := by
      unfold TableEnv.rest TableProcess.env
      rw [h.agree.wal, h.agree.nextId]
    have hs := @tableClose_ends ⟨a.index, s.wal, s.nextId⟩ n _ mem pages (s.env none a.index)
      ⟨h.shown, rfl, rfl⟩
    have ht' := @tableClose_ends ⟨a.index, s.wal, s.nextId⟩ m _ mem₁ pages₁ (t.env (some x) a.index)
      ⟨hown, hrest, rfl⟩
    cases hc : closeResult a.index with
    | error e =>
      simp only [hc] at hs ht'
      simp only [Pooling.owner, hs, ht']
      exact ⟨rfl, mem, pages, h⟩
    | ok file =>
      simp only [hc] at hs ht'
      obtain ⟨e, hrun, hshown, hrest, -⟩ := hs
      obtain ⟨e₁, hrun₁, hshown₁, hrest₁, -⟩ := ht'
      have hwal : e₁.wal = e.wal := congrArg TableRest.wal (hrest₁.trans hrest.symm)
      have hnext : e₁.nextId = e.nextId := congrArg TableRest.nextId (hrest₁.trans hrest.symm)
      have hnext' : e.nextId = s.nextId := congrArg TableRest.nextId hrest
      have hpool : (s.put none e).pools none = (e.pool, e.files) := @put_pools ν s x _ .shared e
      have hleft : OnlyTable x s (s.put none e) := onlyTable_put .shared e
      have hleft₁ : OnlyTable x t (t.put (some x) e₁) := onlyTable_put (.own m) e₁
      have hpages : pagesOf (e.files a.fd) = filePages a.fd mem pages := hshown.pagesOf id
      have hpages₁ : pagesOf (e₁.files a.fd) = filePages a.fd mem₁ pages₁ := hshown₁.pagesOf id
      rw [hF] at hpages₁
      simp only [Pooling.owner, hrun, hrun₁]
      refine ⟨rfl, mem, pages, h.leaveClosed (x := x) ?_ ?_ (Function.update_self _ _ _)
        ⟨?_, ?_, hwal, hnext, ?_⟩ (show OnlyFile a.fd mem mem pages pages from ⟨fun _ _ => rfl, fun _ _ => rfl⟩) (h.other ha) ?_
        ⟨?_, ?_⟩ hfew ?_⟩
      · exact ⟨fun _ hy => Function.update_of_ne hy _ _, fun _ hy => Function.update_of_ne hy _ _,
          fun _ hy => Function.update_of_ne hy _ _, hleft.pools⟩
      · exact ⟨fun _ hy => Function.update_of_ne hy _ _, fun _ hy => Function.update_of_ne hy _ _,
          fun _ hy => Function.update_of_ne hy _ _, hleft₁.pools⟩
      · show Function.update t.opened x _ = Function.update s.opened x _
        rw [h.agree.opened]
      · show Function.update t.indexFile x _ = Function.update s.indexFile x _
        rw [h.agree.indexFile]
      · show ∀ id, e.nextId id < 2 ^ 32
        rw [hnext']
        exact h.agree.counters
      · show Shown n _ mem pages ((s.put none e).pools none).1 ((s.put none e).pools none).2
        rw [hpool]
        exact hshown.mono fun _ hno => hno.elim
      · exact (pagesOf_update _ _).trans hpages
      · exact (pagesOf_update _ _).trans hpages₁
      · show IndexLeads _ (Function.update s.indexFile x _ x)
        rw [Function.update_self]
        exact closeResult_leads hleads hfew hfile hc

theorem step_open {alloc : Nat → Bool} :
    s.step kind k (.open x fd alloc) =
      match tableOpen ⟨kind x, fd⟩ alloc (s.indexFile x)
        ((s.attach k x fd (s.data x)).env (k.owner x) (btreeCreate BTREE_DEFAULT_ORDER)) with
      | .error e => (.error e, s)
      | .ok (true, e) =>
        (.ok (.opened true), ((s.attach k x fd (s.data x)).put (k.owner x) e).withTable x ⟨fd, e.pkIndex⟩)
      | .ok (false, e) =>
        (.ok (.opened false), { (s.attach k x fd (s.data x)).put (k.owner x) e with
          data := Function.update s.data x (e.files fd) }) := rfl

/-- **`table_open`.** -/
theorem Mirrors.open (h : Mirrors n m s t mem pages) (hn : 0 < n) (hn' : n < 2 ^ 30) (hm : 0 < m)
    (hm' : m < 2 ^ 30)
    {alloc : Nat → Bool} (hhanded : s.Handed x fd) (hfresh : s.NoneStale fd (s.data x)) :
    Alike n m (s.step kind .shared (.open x fd alloc)) (t.step kind (.own m) (.open x fd alloc)) := by
  obtain ⟨hclosed, hother⟩ := hhanded
  have hfree : ∀ y a, y ≠ x → s.opened y = some a → a.fd ≠ fd := fun y a _ ha heq =>
    hother y (by rw [ha, Option.map_some, heq])
  obtain ⟨mem', pages', hshown, hF, honly⟩ := h.attach hfresh
  have hfew := (h.tables x).few
  have hindex := (h.tables x).closed hclosed
  rw [← hF] at hfew hindex
  have hsettles : Settles False ⟨kind x, fd⟩ ⟨btreeCreate BTREE_DEFAULT_ORDER, s.wal, s.nextId⟩
      (filePages fd mem' pages') (tableOpen ⟨kind x, fd⟩ alloc (s.indexFile x)) _ :=
    tableOpen_settles hfew hindex h.agree.counters alloc
  have hpool : (s.attach .shared x fd (s.data x)).pools none =
      ((s.pools none).1, Function.update (s.pools none).2 fd (s.data x)) := @attach_pools ν s x fd _ .shared _
  have hpool₁ : (t.attach (.own m) x fd (t.data x)).pools (some x) =
      (bufferPoolCreate m, Function.update (fun _ => []) fd (t.data x)) := @attach_pools ν t x fd _ (.own m) _
  have hF₁ : filePages fd (DataFiles.page (Function.update (fun _ => []) fd (t.data x)))
      (DataFiles.pages (Function.update (fun _ => []) fd (t.data x))) = filePages fd mem' pages' := by
    rw [filePages_files, Function.update_self, (h.tables x).data, hF]
  rw [step_open, step_open, h.agree.indexFile]
  have hs : Shows (Shown n s.OpenFd mem' pages') ⟨btreeCreate BTREE_DEFAULT_ORDER, s.wal, s.nextId⟩
      ((s.attach .shared x fd (s.data x)).env none (btreeCreate BTREE_DEFAULT_ORDER)) :=
    ⟨by unfold TableProcess.env; rw [hpool]; exact hshown, rfl, rfl⟩
  have ht : Shows (Shown m (fun _ => False) _ _) ⟨btreeCreate BTREE_DEFAULT_ORDER, s.wal, s.nextId⟩
      ((t.attach (.own m) x fd (t.data x)).env (some x) (btreeCreate BTREE_DEFAULT_ORDER)) :=
    ⟨by unfold TableProcess.env; rw [hpool₁]; exact shown_create hm' _ _,
      @SameTables.rest ν s t h.agree (some x) _, rfl⟩
  rcases hsettles.both hn hn' hm hm' False.elim id rfl hF₁ hs ht with
    ⟨e, hrun, hrun₁⟩ | ⟨ok, e, e₁, hrun, hrun₁, hindexes, hwal, hnext, hleft⟩
  · simp only [Pooling.owner, TableProcess.env] at hrun hrun₁ ⊢
    simp only [hrun, hrun₁]
    exact ⟨rfl, mem, pages, h⟩
  · obtain ⟨mem'', pages'', hshown', honly', ⟨hF', hcounters, hleads⟩, mem₁, pages₁, hshown₁, hF₁'⟩ := hleft
    have hdone := honly.trans honly'
    have hs : OnlyTable x s ((s.attach .shared x fd (s.data x)).put none e) :=
      (onlyTable_attach .shared _).trans (onlyTable_put .shared e)
    have ht : OnlyTable x t ((t.attach (.own m) x fd (t.data x)).put (some x) e₁) :=
      (onlyTable_attach (.own m) _).trans (onlyTable_put (.own m) e₁)
    have hput : ((s.attach .shared x fd (s.data x)).put none e).pools none = (e.pool, e.files) :=
      @put_pools ν _ x _ .shared e
    have hput₁ : ((t.attach (.own m) x fd (t.data x)).put (some x) e₁).pools (some x) = (e₁.pool, e₁.files) :=
      @put_pools ν _ x _ (.own m) e₁
    simp only [Pooling.owner, TableProcess.env] at hrun hrun₁ ⊢
    simp only [hrun, hrun₁]
    cases ok with
    | true =>
      exact ⟨rfl, mem'', pages'', h.leaveOpen hindexes hs ht rfl ⟨rfl, rfl⟩
        ⟨h.agree.opened, h.agree.indexFile, hwal, hnext, hcounters⟩ hdone hfree
        (fun b hb => by cases hclosed.symm.trans hb) (hput.symm ▸ hshown')
        (hF'.symm ▸ ⟨hfew, (hleads rfl).index, hindex, mem₁, pages₁,
          hput₁.symm ▸ hshown₁.mono fun _ hno => hno.elim, hF₁'.trans hF'⟩)⟩
    | false =>
      have hnot : ¬ s.OpenFd fd := fun ⟨y, a, ha, heq⟩ => hother y (by rw [ha, Option.map_some, heq])
      refine ⟨rfl, mem'', pages'', h.leaveClosed (x := x) ?_ ?_ hclosed
        ⟨h.agree.opened, h.agree.indexFile, hwal, hnext, hcounters⟩ hdone hfree (hput.symm ▸ hshown')
        ⟨?_, ?_⟩ hfew hindex⟩
      · exact ⟨fun _ _ => rfl, fun _ hy => Function.update_of_ne hy _ _, fun _ _ => rfl, hs.pools⟩
      · exact ⟨fun _ _ => rfl, fun _ hy => Function.update_of_ne hy _ _, fun _ _ => rfl, ht.pools⟩
      · exact (pagesOf_update _ _).trans ((hshown'.pagesOf hnot).trans hF')
      · exact (pagesOf_update _ _).trans ((hshown₁.pagesOf id).trans (hF₁'.trans hF'))

/-- **One act** with a fresh descriptor. -/
theorem Mirrors.step (h : Mirrors n m s t mem pages) (hn : 0 < n) (hn' : n < 2 ^ 30) (hm : 0 < m)
    (hm' : m < 2 ^ 30)
    {act : ProcessAct ν} (hassumed : s.Assumed act) (hfresh : s.Fresh act) :
    Alike n m (s.step kind .shared act) (t.step kind (.own m) act) := by
  cases act with
  | create x fd => exact ⟨rfl, h.create hm' hassumed hfresh⟩
  | «open» x fd alloc => exact h.open hn hn' hm hm' hassumed hfresh
  | close x => exact h.close
  | call x c => exact h.call hn hn' hm hm' hassumed

omit [DecidableEq ν] in
/-- Before a table is opened. -/
theorem mirrors_start (hn' : n < 2 ^ 30) {wal : Wal} {data indexFile : ν → Bytes}
    (hfit : FilesFit data indexFile) :
    ∃ mem pages, Mirrors n m (TableProcess.start n wal data indexFile)
      (TableProcess.start n wal data indexFile) mem pages := by
  refine ⟨_, _, ⟨rfl, rfl, rfl, rfl, fun _ => Nat.one_lt_two_pow (by decide)⟩, fun x y a b ha _ _ => ?_,
    shown_create hn' _ _, fun x => ⟨rfl, (hfit x).1, fun _ => (hfit x).2, fun a ha => ?_⟩⟩
  · cases ha
  · cases ha

omit [DecidableEq ν] in
theorem Mirrors.nothingLeft (h : Mirrors n m s t mem pages) : s.NothingLeft t := by
  have hview : ∀ {x a}, s.opened x = some a → shownFile (t.pools (some x)) a.fd = filePages a.fd mem pages := by
    intro x a ha
    obtain ⟨-, -, -, mem₁, pages₁, hown, hF⟩ := (h.tables x).opened a ha
    exact (shownFile_eq hown).trans hF
  refine ⟨h.agree.opened, fun x => (h.tables x).data, fun x a ha => ?_, fun i hi hvalid hd => ?_⟩
  · rw [hview ha, shownFile_eq h.shown]
  · rw [h.shown.1.1.shape.numFrames] at hi
    have hframe := h.shown.1.1.frame i ⟨hi, hvalid⟩
    obtain ⟨x, a, ha, hfd⟩ := h.shown.2 i ⟨hi, hvalid⟩ hd
    have hin : ((s.pools none).1.frames i).key.pageId < pages a.fd := by
      rw [hfd, ← h.shown.1.2]
      exact hframe.inFile
    refine ⟨x, a, ha, hfd, ?_⟩
    rw [hview ha, filePages, List.getElem?_map, List.getElem?_range hin, Option.map_some, hfd]
    exact congrArg some hframe.buf.symm

end Mirror

/-- **Closed tables leave nothing behind in the shared pool**, as long as it has no other file's pages under a
descriptor that a file is opened with: the calls return what they do when each open table has its own pool, and
files and frames are as they are then. -/
theorem closed_tables_leave_nothing {ν : Type} [DecidableEq ν] (kind : ν → TableId) {n m : Nat} (hn : 0 < n)
    (hn' : n < 2 ^ 30) (hm : 0 < m) (hm' : m < 2 ^ 30) (wal : Wal) {data indexFile : ν → Bytes}
    (hfit : FilesFit data indexFile) (acts : List (ProcessAct ν))
    (hok : OpsOk (TableProcess.step kind .shared) (fun s act => s.Assumed act ∧ s.Fresh act)
      (TableProcess.start n wal data indexFile) acts) :
    (runOps (TableProcess.step kind .shared) (TableProcess.start n wal data indexFile) acts).1 =
        (runOps (TableProcess.step kind (.own m)) (TableProcess.start n wal data indexFile) acts).1 ∧
      TableProcess.NothingLeft
        (runOps (TableProcess.step kind .shared) (TableProcess.start n wal data indexFile) acts).2
        (runOps (TableProcess.step kind (.own m)) (TableProcess.start n wal data indexFile) acts).2 := by
  have hstep : ∀ (t s : TableProcess ν) (act : ProcessAct ν), (∃ mem pages, Mirrors n m s t mem pages) →
      s.Assumed act ∧ s.Fresh act →
      (TableProcess.step kind (.own m) t act).1 = (TableProcess.step kind .shared s act).1 ∧
        ∃ mem pages, Mirrors n m (TableProcess.step kind .shared s act).2
          (TableProcess.step kind (.own m) t act).2 mem pages :=
    fun _ _ _ ⟨_, _, h⟩ hact => h.step hn hn' hm hm' hact.1 hact.2
  obtain ⟨hanswers, _, _, hmirrors⟩ := runOps_refines _ _ hstep acts (mirrors_start hn' hfit) hok
  exact ⟨hanswers.symm, hmirrors.nothingLeft⟩

theorem filesFit_empty {ν : Type} : FilesFit (fun _ : ν => []) fun _ => [] :=
  fun _ => ⟨show (pagesOf []).length < 2 ^ 32 by decide, fun _ _ h => (by cases h)⟩

/-- A record of a booking. -/
def bookingRecord (booking : UInt8) : Memory := fun i => if i = 0 then booking else 0

/-- The bookings of the records that a scan returns. -/
def scannedBookings : Except BadAccess ProcessResult → Option (List Nat)
  | .ok (.called (.scanned records)) => some (records.map fun record => ofLE (slice 0 4 record))
  | _ => none

/-- A process without files, with one frame. -/
def emptyProcess : TableProcess Bool := TableProcess.start 1 walCreate (fun _ => []) fun _ => []

/-- A table is filled and closed, and opened again with another descriptor.  A second table gets the first one's
when its page has left the pool. -/
def evictedTable : List (ProcessAct Bool) :=
  [.create true 3, .call true (.insert (bookingRecord 7) allocOk), .close true, .open true 4 allocOk,
    .create false 3, .call false (.insert (bookingRecord 9) allocOk), .call true (.scan (fun _ => true) 5),
    .close true, .call false (.scan (fun _ => true) 5)]

/-- Each table has its own record. -/
theorem closed_tables_leave_nothing_evicted :
    let shared := runOps (TableProcess.step (fun _ => .bookingSeats) .shared) emptyProcess evictedTable
    let own := runOps (TableProcess.step (fun _ => .bookingSeats) (.own 1)) emptyProcess evictedTable
    shared.1.map scannedBookings = [none, none, none, none, none, none, some [7], none, some [9]] ∧
      shared.1 = own.1 ∧ shared.2.NothingLeft own.2 := by
  have hok : OpsOk (TableProcess.step (fun _ : Bool => .bookingSeats) .shared)
      (fun s act => s.Assumed act ∧ s.Fresh act) emptyProcess evictedTable := by decide +kernel
  have hscans : (runOps (TableProcess.step (fun _ => .bookingSeats) .shared) emptyProcess evictedTable).1.map
      scannedBookings = [none, none, none, none, none, none, some [7], none, some [9]] := by decide +kernel
  exact ⟨hscans, closed_tables_leave_nothing _ Nat.one_pos (by decide) Nat.one_pos (by decide) _
    filesFit_empty _ hok⟩

/-- A table is created, filled and closed, and so is another with the same descriptor. -/
def reusedDescriptor : List (ProcessAct Bool) :=
  [.create true 3, .call true (.insert (bookingRecord 7) allocOk), .close true, .create false 3,
    .call false (.insert (bookingRecord 9) allocOk), .call false (.scan (fun _ => true) 5), .close false]

/-- **A closed table is seen**: the first page of the second table is taken for that of the first, which is still
in the pool.  Its scan returns the record of the closed table, which is then written into its file. -/
theorem closed_table_seen :
    let shared := runOps (TableProcess.step (fun _ => .bookingSeats) .shared) emptyProcess reusedDescriptor
    let own := runOps (TableProcess.step (fun _ => .bookingSeats) (.own 1)) emptyProcess reusedDescriptor
    OpsOk (TableProcess.step (fun _ => .bookingSeats) .shared) TableProcess.Assumed emptyProcess
        reusedDescriptor ∧
      shared.1.map scannedBookings = [none, none, none, none, none, some [7, 9], none] ∧
      own.1.map scannedBookings = [none, none, none, none, none, some [9], none] ∧
      (pagesOf (shared.2.data false)).map pageGetRecordCount = [2] ∧
      (pagesOf (own.2.data false)).map pageGetRecordCount = [1] := by
  decide +kernel

end Ticketing
