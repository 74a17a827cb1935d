import Ticketing.Storage.TableStore

/-!
# Closing and opening tables (`server/storage/table.c`)

`table_close` leaves the pages in the data file and the index in the index file; `table_open` gets the
counter back from the keys in the records.

* `recordKey`, `Stamped`, `Dense` — every record has its id in its key field, and every id its record.
* `TableHolds.close`, `TableHolds.open` — one table.
* `TableStore.closeTable`, `.openTable`, `.restart` — the shutdown of the server and its next start;
  `StoreHolds.restart`.
-/

set_option autoImplicit false

namespace Ticketing

open Bytes

/-! ## Keys in records -/

/-- The primary key of a record. -/
def recordKey (id : TableId) (record : Bytes) : Nat := ofLE (slice (keyOffset id) 4 record)

/-- Every record has its id in its key field. -/
def Stamped (id : TableId) (T : OTable Bytes) : Prop := ∀ r ∈ T.rows, recordKey id r.2 = r.1

/-- Every id that has been used is that of a record. -/
def Dense (T : OTable Bytes) : Prop := T.rows.map Prod.fst = List.range' 1 (T.nextId - 1)

section Keys

variable {id : TableId} {T : OTable Bytes}

theorem slice_bytes (m : Memory) {off n size : Nat} (h : off + n ≤ size) :
    slice off n (m.bytes size) = (List.range n).map fun i => m (off + i) := by
  apply List.ext_getElem
  · rw [length_slice (by rw [m.length_bytes]; exact h), List.length_map, List.length_range]
  · intro i hi hi'
    simp [slice, Memory.bytes]

theorem recordKey_storedRecord {key : Nat} (hkey : key < 2 ^ 32) (record : Memory) :
    recordKey id (storedRecord id key record) = key := by
  have hfield : (List.range 4).map (fun i => stampKey id key record (keyOffset id + i)) = toLE 4 key := by
    apply List.ext_getElem
    · rw [List.length_map, List.length_range, length_toLE]
    · intro i hi hi'
      rw [length_toLE] at hi'
      rw [List.getElem_map, List.getElem_range, stampKey, if_pos (by omega), Nat.add_sub_cancel_left,
        List.getD_eq_getElem?_getD, List.getElem?_eq_getElem (by rw [length_toLE]; exact hi')]
      rfl
  unfold recordKey storedRecord
  rw [slice_bytes _ (keyOffset_le id), hfield]
  exact ofLE_toLE_of_lt hkey

/-- `mark_record_deleted` leaves the key. -/
theorem recordKey_deletedRecord {record : Bytes} (h : record.length = etpRecordSize id) :
    recordKey id (deletedRecord id record) = recordKey id record := by
  have hflag := getDeletedFlagOffset_lt id
  have hdisjoint := key_flag_disjoint id
  unfold recordKey deletedRecord
  rw [slice_splice_disjoint (by rw [List.length_singleton]; omega) (by rw [List.length_singleton]; omega)]

theorem Stamped.insert (h : Stamped id T) {a : Bytes} (ha : recordKey id a = T.nextId) :
    Stamped id (T.insert a) := by
  intro r hr
  rw [OTable.rows_insert] at hr
  rcases List.mem_append.mp hr with hr | hr
  · exact h r hr
  · rw [List.mem_singleton.mp hr]
    exact ha

theorem Stamped.update (h : Stamped id T) {key : Nat} {a : Bytes} (ha : recordKey id a = key) :
    Stamped id (T.update key a) := by
  intro r hr
  obtain ⟨r', hr', rfl⟩ := List.mem_map.mp hr
  split
  · rename_i hkey
    exact ha.trans hkey.symm
  · exact h r' hr'

theorem Dense.insert (h : Dense T) (hnext : 0 < T.nextId) (a : Bytes) : Dense (T.insert a) := by
  have hlast : T.nextId + 1 - 1 = T.nextId - 1 + 1 := by omega
  have hnew : 1 + (T.nextId - 1) = T.nextId := by omega
  unfold Dense
  rw [OTable.rows_insert, List.map_append, h, OTable.nextId_insert, hlast, List.range'_1_concat, hnew]
  rfl

theorem Dense.update (h : Dense T) (key : Nat) (a : Bytes) : Dense (T.update key a) := by
  have hkeys : (T.update key a).rows.map Prod.fst = T.rows.map Prod.fst := by
    show (T.rows.map fun r => if r.1 = key then (r.1, a) else r).map Prod.fst = _
    rw [List.map_map]
    refine List.map_congr_left fun r _ => ?_
    show (if r.1 = key then (r.1, a) else r).1 = r.1
    split <;> rfl
  exact hkeys.trans h

end Keys

/-! ## Closing a table -/

/-- The pool stands for the memory, and the files have its pages. -/
def Flushed (n : Nat) (mem : PageKey → Bytes) (pages : Int → Nat) (pool : BufferPool) (files : DataFiles) :
    Prop :=
  Cached n mem pages pool files ∧ ∀ k : PageKey, k.pageId < pages k.fd → files.page k = mem k

section Table

variable {n : Nat} {table : Table} {T : OTable Bytes} {mem : PageKey → Bytes} {pages : Int → Nat}
  {r : TableRest}

/-- **`table_close`** writes the pages of all tables, and the index unless it is on disk already. -/
theorem TableHolds.close (h : TableHolds table T mem pages r.pkIndex) :
    Runs (Cached n mem pages) r tableClose
      (if r.pkIndex.dirty then some (btreeFile r.pkIndex) else none) (Flushed n mem pages) r := by
  obtain ⟨heap, -, -, m, hinv, -⟩ := h.stored
  refine Prog.Meets.bind (R := fun _ s => Shows (Flushed n mem pages) r s) ?_ fun _ => ?_
  · refine Prog.Meets.act fun s hs => ?_
    obtain ⟨⟨hquiet, hpages⟩, hrest, hio⟩ := hs
    obtain ⟨hquiet', hpages', -, hdisk⟩ := hquiet.flushAll rfl
    dsimp only
    rw [hio]
    refine ⟨⟨⟨hquiet', fun fd => (hpages' fd).trans (hpages fd)⟩, fun k hk => hdisk k ?_⟩, hrest, rfl⟩
    rw [hpages', hpages]
    exact hk
  · have hindex : Runs (Flushed n mem pages) r (Prog.reads TableEnv.pkIndex) r.pkIndex (Flushed n mem pages) r :=
      Runs.reads fun s hs => by
        rw [← hs.rest]
        rfl
    have hfree : Runs (Flushed n mem pages) r indexFree () (Flushed n mem pages) r :=
      hindex.bind (Runs.lift (nodeFreeChecked_ok _ hinv.fits))
    exact hindex.bind (hfree.bind (Runs.pure _))

/-! ## Opening a table -/

/-- What `table_open` does with a record. -/
def openStep (id : TableId) (maxId : Option Nat) (x : Nat × Bytes) : Option Nat :=
  maxId.bind fun maxId =>
    if id = .bookingSeats ∧ recordKey id x.2 = 0 then none else some (max maxId (recordKey id x.2))

theorem foldl_openStep_none (id : TableId) (xs : List (Nat × Bytes)) : xs.foldl (openStep id) none = none := by
  induction xs with
  | nil => rfl
  | cons x xs ih => exact ih

/-- The largest key of records that have their ids in their key fields. -/
theorem foldl_openStep {id : TableId} (xs : List (Nat × Bytes)) (hids : ∀ x ∈ xs, 0 < x.1)
    (hkeys : ∀ x ∈ xs, recordKey id x.2 = x.1) (m : Nat) :
    xs.foldl (openStep id) (some m) = some ((xs.map Prod.fst).foldl max m) := by
  induction xs generalizing m with
  | nil => rfl
  | cons x xs ih =>
    have hkey := hkeys x List.mem_cons_self
    have hid := hids x List.mem_cons_self
    rw [List.foldl_cons, openStep, Option.bind_some, hkey, if_neg (fun h => by omega)]
    exact ih (fun y hy => hids y (List.mem_cons_of_mem _ hy)) (fun y hy => hkeys y (List.mem_cons_of_mem _ hy)) _

theorem foldl_max_range' (k : Nat) : (List.range' 1 k).foldl max 0 = k := by
  induction k with
  | zero => rfl
  | succ k ih =>
    rw [List.range'_1_concat, List.foldl_append, ih]
    show max k (1 + k) = k + 1
    omega

/-- One slot. -/
theorem openSlot_steps {page : Bytes} {i : Nat} {x : Nat × Bytes} (h : InPage table.id page i x.2)
    (maxId : Option Nat) : Steps r (openSlot table page maxId i) (openStep table.id maxId x) r := by
  cases maxId with
  | none => exact Steps.pure _
  | some m =>
    have hkey := keyOffset_le table.id
    have hinside := h.inside
    have hread : storedKey table.id page (recordOffset i (etpRecordSize table.id)) = recordKey table.id x.2 := by
      unfold storedKey recordKey
      rw [← h.bytes, slice_slice _ hkey]
    unfold openSlot openStep
    rw [h.found, Option.bind_some]
    refine Steps.bind (Steps.touch (by omega)) ?_
    rw [hread]
    exact Steps.pure _

theorem Steps.etpSetNextId (next : Nat) : Steps r (Ticketing.etpSetNextId table next) ()
    { r with nextId := Function.update r.nextId table.id next } := by
  refine fun I => Runs.act fun s hs => ?_
  obtain ⟨hpool, rfl, hio⟩ := hs
  exact ⟨rfl, hpool, rfl, hio⟩

/-- The loops of `table_open` over the pages and their slots. -/
theorem TableHolds.openLoop {t : BTree} (h : TableHolds table T mem pages t) (hn : 0 < n)
    (hn' : n < 2 ^ 30) : Runs (Cached n mem pages) r
      (Prog.fold (openPage table) (some 0) (List.range (pages table.dataFd)))
      (T.rows.foldl (openStep table.id) (some 0)) (Cached n mem pages) r := by
  obtain ⟨heap, hrows, hpages, -⟩ := h.stored
  rw [← hrows]
  refine hpages.loop (fun p recs hp maxId => ?_) _
  cases maxId with
  | none =>
    rw [foldl_openStep_none]
    exact Runs.pure _
  | some m => exact hpages.visit hn hn' hp fun page i x hx maxId => openSlot_steps hx maxId

theorem TableHolds.indexFree {t : BTree} (h : TableHolds table T mem pages t) :
    Runs (Cached n mem pages) { r with pkIndex := t } Ticketing.indexFree () (Cached n mem pages)
      { r with pkIndex := t } := by
  obtain ⟨heap, -, -, m, hinv, -⟩ := h.stored
  have hindex : Runs (Cached n mem pages) { r with pkIndex := t } (Prog.reads TableEnv.pkIndex) t
      (Cached n mem pages) { r with pkIndex := t } :=
    Runs.reads fun s hs => congrArg TableRest.pkIndex hs.rest
  exact hindex.bind (Runs.lift (nodeFreeChecked_ok _ hinv.fits))

/-- **`table_open`** gets the index from the index file and the counter from the records. -/
theorem TableHolds.open {t : BTree} (h : TableHolds table T mem pages t) (hn : 0 < n) (hn' : n < 2 ^ 30)
    (hids : T.nextId < 2 ^ 32) (hkeys : Stamped table.id T) (hdense : Dense T) {file : Bytes}
    (hfile : btreeOpenChecked allocOk file = .ok (some t)) :
    Runs (Cached n mem pages) r (tableOpen table allocOk file) true (Cached n mem pages)
      { r with pkIndex := t, nextId := Function.update r.nextId table.id T.nextId } := by
  have hnext := h.next
  have hmax : T.rows.foldl (openStep table.id) (some 0) = some (T.nextId - 1) := by
    rw [foldl_openStep _ h.ids hkeys, hdense, foldl_max_range']
  refine Runs.bind (Runs.lift hfile) (Runs.bind (Steps.setIndex t _) (Runs.bind (Runs.pageCount (h.few hids)) ?_))
  refine Runs.bind (h.openLoop hn hn') ?_
  rw [hmax]
  dsimp only
  rw [if_neg (by omega), Nat.sub_add_cancel hnext]
  exact Runs.bind (Steps.etpSetNextId _ _) (Runs.pure _)

/-- It refuses records of `booking_seats` without a key. -/
theorem TableHolds.open_fails {t : BTree} (h : TableHolds table T mem pages t) (hn : 0 < n)
    (hn' : n < 2 ^ 30) (hids : T.nextId < 2 ^ 32) (hbad : T.rows.foldl (openStep table.id) (some 0) = none)
    {file : Bytes} (hfile : btreeOpenChecked allocOk file = .ok (some t)) :
    Runs (Cached n mem pages) r (tableOpen table allocOk file) false (Cached n mem pages)
      { r with pkIndex := t } := by
  refine Runs.bind (Runs.lift hfile) (Runs.bind (Steps.setIndex t _) (Runs.bind (Runs.pageCount (h.few hids)) ?_))
  refine Runs.bind (h.openLoop hn hn') ?_
  rw [hbad]
  exact Runs.bind h.indexFree (Runs.pure _)

/-- The same pages under another descriptor, and a tree for the same map. -/
theorem TableHolds.moved {t t' : BTree} (h : TableHolds table T mem pages t) {fd : Int}
    {mem' : PageKey → Bytes} {pages' : Int → Nat} (hpages : pages' fd = pages table.dataFd)
    (hmem : ∀ p, p < pages table.dataFd → mem' ⟨fd, p⟩ = mem ⟨table.dataFd, p⟩)
    (hindex : ∀ m, FullInv BTREE_DEFAULT_ORDER t m → FullInv BTREE_DEFAULT_ORDER t' m) :
    TableHolds ⟨table.id, fd⟩ T mem' pages' t' := by
  obtain ⟨heap, hrows, hheap, m, hinv, hplace, hlook⟩ := h.stored
  refine ⟨h.ids, h.next, heap, hrows, ⟨?_, fun p recs hp => ?_, hheap.filled⟩, m, hindex m hinv, hplace, hlook⟩
  · exact hheap.length.trans hpages.symm
  · have hin : p < pages table.dataFd := hheap.length ▸ (List.getElem?_eq_some_iff.mp hp).1
    show PageHolds _ _ (mem' ⟨fd, p⟩)
    rw [hmem p hin]
    exact hheap.holds p recs hp

end Table

/-! ## All tables -/

/-- The data files of the tables under other descriptors. -/
def reopenedFiles (fd fd' : TableId → Int) (files : DataFiles) : DataFiles := fun d =>
  (TableId.all.find? fun id => fd' id == d).elim [] fun id => files (fd id)

theorem reopenedFiles_apply {fd fd' : TableId → Int} (hfd' : Function.Injective fd') (files : DataFiles)
    (id : TableId) : reopenedFiles fd fd' files (fd' id) = files (fd id) := by
  unfold reopenedFiles
  cases hfind : TableId.all.find? fun id' => fd' id' == fd' id with
  | none => exact absurd (List.find?_eq_none.mp hfind id id.mem_all) (by simp)
  | some id' =>
    have hsame : fd' id' = fd' id := by simpa using List.find?_some hfind
    rw [hfd' hsame]
    rfl

namespace TableStore

/-- `table_close` of one table. -/
def closeTable (s : TableStore) (id : TableId) : Option TableStore :=
  match tableClose (s.env id) with
  | .ok (file, e) =>
    some { s.put id e with indexFile := Function.update s.indexFile id (file.getD (s.indexFile id)) }
  | .error _ => none

/-- `table_open` of one table. -/
def openTable (s : TableStore) (id : TableId) : Option TableStore :=
  match tableOpen ⟨id, s.fd id⟩ allocOk (s.indexFile id) (s.env id) with
  | .ok (true, e) => some (s.put id e)
  | _ => none

/-- What the next process starts with: other descriptors, an empty pool, the log as `wal_open` finds it, and
no table yet. -/
def boot (n : Nat) (fd : TableId → Int) (s : TableStore) : TableStore where
  fd := fd
  index := fun _ => btreeCreate BTREE_DEFAULT_ORDER
  indexFile := s.indexFile
  pool := bufferPoolCreate n
  files := reopenedFiles s.fd fd s.files
  wal := walOpen s.wal.file
  nextId := fun _ => 1

/-- The server closes its tables and is started again. -/
def restart (n : Nat) (fd : TableId → Int) (s : TableStore) : Option TableStore :=
  (TableId.all.reverse.foldlM closeTable s).bind fun s => TableId.all.foldlM openTable (s.boot n fd)

end TableStore

section Store

variable {n : Nat} {s : TableStore} {T : TableId → OTable Bytes} {mem : PageKey → Bytes}
  {pages : Int → Nat}

/-- Some of the tables have been closed. -/
structure Closing (n : Nat) (s : TableStore) (mem : PageKey → Bytes) (pages : Int → Nat)
    (closed : List TableId) (s' : TableStore) : Prop where
  fd : s'.fd = s.fd
  index : s'.index = s.index
  wal : s'.wal = s.wal
  cached : Cached n mem pages s'.pool s'.files
  flushed : closed ≠ [] → Flushed n mem pages s'.pool s'.files
  indexFile : ∀ id, s'.indexFile id = if id ∈ closed then btreeFile (s.index id) else s.indexFile id

/-- Closing one more. -/
theorem Closing.close {closed : List TableId} {s' : TableStore} (h : Closing n s mem pages closed s')
    {id : TableId} (hholds : TableHolds ⟨id, s.fd id⟩ (T id) mem pages (s.index id))
    (hsaved : (s.index id).dirty = false → s.indexFile id = btreeFile (s.index id)) :
    ∃ s'', s'.closeTable id = some s'' ∧ Closing n s mem pages (closed ++ [id]) s'' := by
  have hindex : s'.index id = s.index id := congrFun h.index id
  have hrun := @TableHolds.close n ⟨id, s.fd id⟩ (T id) mem pages ⟨s'.index id, s'.wal, s'.nextId⟩
    (hindex ▸ hholds)
  obtain ⟨_, e, hcall, rfl, hpool, hrest, -⟩ := hrun (s'.env id) ⟨h.cached, rfl, rfl⟩
  have hkept : e.pkIndex = s'.index id := congrArg TableRest.pkIndex hrest
  have hwal : e.wal = s'.wal := congrArg TableRest.wal hrest
  have hclosed : ∀ file, tableClose (s'.env id) = .ok (file, e) → s'.closeTable id =
      some { s'.put id e with
        indexFile := Function.update s'.indexFile id (file.getD (s'.indexFile id)) } := by
    intro file hfile
    rw [TableStore.closeTable, hfile]
  refine ⟨_, hclosed _ hcall, h.fd, ?_, hwal.trans h.wal, hpool.1, fun _ => hpool, fun id' => ?_⟩
  · show Function.update s'.index id e.pkIndex = s.index
    rw [hkept, Function.update_eq_self]
    exact h.index
  · have hfile := h.indexFile id'
    show Function.update s'.indexFile id _ id' = _
    rcases eq_or_ne id' id with rfl | hne
    · rw [Function.update_self, if_pos (List.mem_append_right _ (List.mem_singleton.mpr rfl))]
      dsimp only
      rw [hindex]
      split
      · rfl
      · rename_i hclean
        rw [Option.getD_none, hfile, hsaved (Bool.eq_false_iff.mpr hclean), ite_self]
    · rw [Function.update_of_ne hne, hfile]
      simp only [List.mem_append, List.mem_singleton, hne, or_false]

/-- **All tables closed**: the data files and the index files have everything. -/
theorem StoreHolds.close (h : StoreHolds n s T) : ∃ s' mem pages,
    TableId.all.reverse.foldlM TableStore.closeTable s = some s' ∧ s'.fd = s.fd ∧ s'.wal = s.wal ∧
      Flushed n mem pages s'.pool s'.files ∧ (∀ id, s'.indexFile id = btreeFile (s.index id)) ∧
      ∀ id, TableHolds ⟨id, s.fd id⟩ (T id) mem pages (s.index id) := by
  obtain ⟨mem, pages, hcached, htables⟩ := h.tables
  have hfirst : Closing n s mem pages [] s :=
    ⟨rfl, rfl, rfl, hcached, fun hne => absurd rfl hne, fun _ => rfl⟩
  have hnext : ∀ closed id rest s', TableId.all.reverse = closed ++ id :: rest →
      Closing n s mem pages closed s' →
      ∃ s'', s'.closeTable id = some s'' ∧ Closing n s mem pages (closed ++ [id]) s'' :=
    fun closed id rest s' _ hclosing => hclosing.close (htables id) (h.saved id)
  obtain ⟨s', hrun, hall⟩ := foldlM_invariant (Closing n s mem pages) hnext hfirst
  refine ⟨s', mem, pages, hrun, hall.fd, hall.wal, hall.flushed (by decide), fun id => ?_, htables⟩
  rw [hall.indexFile, if_pos (List.mem_reverse.mpr id.mem_all)]

/-- Some of the tables have been opened, with these indexes. -/
structure Starting (n : Nat) (s : TableStore) (T : TableId → OTable Bytes) (mem : PageKey → Bytes)
    (pages : Int → Nat) (index : TableId → BTree) (opened : List TableId) (s' : TableStore) : Prop where
  fd : s'.fd = s.fd
  indexFile : s'.indexFile = s.indexFile
  wal : s'.wal = s.wal
  cached : Cached n mem pages s'.pool s'.files
  opened : ∀ id ∈ opened, s'.index id = index id ∧ s'.nextId id = (T id).nextId

/-- Opening one more. -/
theorem Starting.open {index : TableId → BTree} {opened : List TableId} {s' : TableStore}
    (h : Starting n s T mem pages index opened s') (hn : 0 < n) (hn' : n < 2 ^ 30) {id : TableId}
    (hholds : TableHolds ⟨id, s.fd id⟩ (T id) mem pages (index id)) (hids : (T id).nextId < 2 ^ 32)
    (hkeys : Stamped id (T id)) (hdense : Dense (T id))
    (hfile : btreeOpenChecked allocOk (s.indexFile id) = .ok (some (index id))) :
    ∃ s'', s'.openTable id = some s'' ∧ Starting n s T mem pages index (opened ++ [id]) s'' := by
  have hrun := @TableHolds.open n ⟨id, s.fd id⟩ (T id) mem pages ⟨s'.index id, s'.wal, s'.nextId⟩ _
    hholds hn hn' hids hkeys hdense _ hfile
  obtain ⟨_, e, hcall, rfl, hpool, hrest, -⟩ := hrun (s'.env id) ⟨h.cached, rfl, rfl⟩
  have hindex : e.pkIndex = index id := congrArg TableRest.pkIndex hrest
  have hwal : e.wal = s'.wal := congrArg TableRest.wal hrest
  have hnext : e.nextId = Function.update s'.nextId id (T id).nextId := congrArg TableRest.nextId hrest
  have hopened : s'.openTable id = some (s'.put id e) := by
    rw [TableStore.openTable, h.fd, h.indexFile, hcall]
  refine ⟨_, hopened, h.fd, h.indexFile, hwal.trans h.wal, hpool, fun id' hid' => ?_⟩
  show Function.update s'.index id e.pkIndex id' = _ ∧ e.nextId id' = _
  rw [hindex, hnext]
  rcases eq_or_ne id' id with rfl | hne
  · rw [Function.update_self, Function.update_self]
    exact ⟨rfl, rfl⟩
  · rw [Function.update_of_ne hne, Function.update_of_ne hne]
    rcases List.mem_append.mp hid' with hold | hnew
    · exact h.opened id' hold
    · exact absurd (List.mem_singleton.mp hnew) hne

/-- A table that is refused. -/
theorem Starting.open_fails {index : TableId → BTree} {opened : List TableId} {s' : TableStore}
    (h : Starting n s T mem pages index opened s') (hn : 0 < n) (hn' : n < 2 ^ 30) {id : TableId}
    (hholds : TableHolds ⟨id, s.fd id⟩ (T id) mem pages (index id)) (hids : (T id).nextId < 2 ^ 32)
    (hbad : (T id).rows.foldl (openStep id) (some 0) = none)
    (hfile : btreeOpenChecked allocOk (s.indexFile id) = .ok (some (index id))) :
    s'.openTable id = none := by
  have hrun := @TableHolds.open_fails n ⟨id, s.fd id⟩ (T id) mem pages ⟨s'.index id, s'.wal, s'.nextId⟩ _
    hholds hn hn' hids hbad _ hfile
  obtain ⟨_, e, hcall, rfl, -⟩ := hrun (s'.env id) ⟨h.cached, rfl, rfl⟩
  rw [TableStore.openTable, h.fd, h.indexFile, hcall]

/-- The tables that a new process finds on disk. -/
structure OnDisk (n : Nat) (s : TableStore) (T : TableId → OTable Bytes) (mem : PageKey → Bytes)
    (pages : Int → Nat) (index : TableId → BTree) : Prop where
  cached : Cached n mem pages s.pool s.files
  tables : ∀ id, TableHolds ⟨id, s.fd id⟩ (T id) mem pages (index id)
  files : ∀ id, btreeOpenChecked allocOk (s.indexFile id) = .ok (some (index id))
  saved : ∀ id, (index id).dirty = false ∧ s.indexFile id = btreeFile (index id)

/-- `btree_open` of the index file of a table. -/
theorem TableHolds.reopenIndex {table : Table} {T : OTable Bytes} {t : BTree}
    (h : TableHolds table T mem pages t) : ∃ t', btreeOpenChecked allocOk (btreeFile t) = .ok (some t') ∧
      (∀ m, FullInv BTREE_DEFAULT_ORDER t m → FullInv BTREE_DEFAULT_ORDER t' m) ∧
      ((∃ m, BTreeInv BTREE_DEFAULT_ORDER t m) → ∃ m, BTreeInv BTREE_DEFAULT_ORDER t' m) ∧
      t'.dirty = false ∧ btreeFile t = btreeFile t' := by
  obtain ⟨heap, -, -, m, hinv, -⟩ := h.stored
  obtain ⟨t', hopen, hinv', hshape, hclean, hfile⟩ := hinv.reopen (by decide)
  refine ⟨t', hopen, fun m' hm' => ?_, fun ⟨_, hm⟩ => ⟨m, hm.of_shape hinv' hshape⟩, hclean, hfile.symm⟩
  obtain ⟨t'', hopen', hinv'', -⟩ := hm'.reopen (by decide)
  rw [hopen, Except.ok.injEq, Option.some.injEq] at hopen'
  exact hopen' ▸ hinv''

/-- **The server closes its tables**, and the next process finds them. -/
theorem StoreHolds.stop (h : StoreHolds n s T) {n' : Nat} (hn' : n' < 2 ^ 30) {fd' : TableId → Int}
    (hfd' : Function.Injective fd') : ∃ s' mem pages index,
    TableId.all.reverse.foldlM TableStore.closeTable s = some s' ∧
      OnDisk n' (s'.boot n' fd') T mem pages index ∧ s'.wal = s.wal ∧
      ∀ id, (∃ m, BTreeInv BTREE_DEFAULT_ORDER (s.index id) m) →
        ∃ m, BTreeInv BTREE_DEFAULT_ORDER (index id) m := by
  obtain ⟨s', mem, pages, hrun, hfd, hwal, ⟨⟨-, hpages⟩, hflushed⟩, hfile, htables⟩ := h.close
  have hreopen := fun id => (htables id).reopenIndex
  choose index hopen hfull hindexed hclean hsame using hreopen
  have hmoved : ∀ id, (s'.boot n' fd').files (fd' id) = s'.files (s.fd id) := fun id => by
    rw [← hfd]
    exact reopenedFiles_apply hfd' s'.files id
  refine ⟨s', (s'.boot n' fd').files.page, (s'.boot n' fd').files.pages, index, hrun,
    ⟨⟨quiet_create hn' _, fun _ => rfl⟩, fun id => ?_, fun id => ?_, fun id => ⟨hclean id, ?_⟩⟩, hwal,
    hindexed⟩
  · have hcount : (s'.boot n' fd').files.pages (fd' id) = pages (s.fd id) := by
      rw [DataFiles.pages, hmoved, ← hpages]
      rfl
    refine (htables id).moved hcount (fun p hp => ?_) (hfull id)
    show pageRead ((s'.boot n' fd').files (fd' id)) p = _
    rw [← hflushed ⟨s.fd id, p⟩ hp, hmoved]
    rfl
  · show btreeOpenChecked allocOk (s'.indexFile id) = _
    rw [hfile, hopen]
  · show s'.indexFile id = _
    rw [hfile, hsame]

/-- **A restart** finds all tables as they were. -/
theorem StoreHolds.restart (h : StoreHolds n s T) (hkeys : ∀ id, Stamped id (T id))
    (hdense : ∀ id, Dense (T id)) {n' : Nat} (hn : 0 < n') (hn' : n' < 2 ^ 30) {fd' : TableId → Int}
    (hfd' : Function.Injective fd') : ∃ s', s.restart n' fd' = some s' ∧ StoreHolds n' s' T ∧
      s'.wal = walOpen s.wal.file ∧
      ∀ id, (∃ m, BTreeInv BTREE_DEFAULT_ORDER (s.index id) m) →
        ∃ m, BTreeInv BTREE_DEFAULT_ORDER (s'.index id) m := by
  obtain ⟨s₁, mem, pages, index, hclose, hdisk, hwal, hindexed⟩ := h.stop hn' hfd'
  have hfirst : Starting n' (s₁.boot n' fd') T mem pages index [] (s₁.boot n' fd') :=
    ⟨rfl, rfl, rfl, hdisk.cached, fun id hid => absurd hid List.not_mem_nil⟩
  have hnext : ∀ opened id rest s', TableId.all = opened ++ id :: rest →
      Starting n' (s₁.boot n' fd') T mem pages index opened s' →
      ∃ s'', s'.openTable id = some s'' ∧
        Starting n' (s₁.boot n' fd') T mem pages index (opened ++ [id]) s'' :=
    fun opened id rest s' _ hstarting => hstarting.open hn hn' (hdisk.tables id) (h.next id).2 (hkeys id)
      (hdense id) (hdisk.files id)
  obtain ⟨s', hopen, hall⟩ := foldlM_invariant _ hnext hfirst
  have hfd : s'.fd = fd' := hall.fd
  refine ⟨s', ?_, ⟨hfd ▸ hfd', fun id => ⟨(hall.opened id id.mem_all).2, (h.next id).2⟩, fun id _ => ?_, mem,
    pages, hall.cached, fun id => ?_⟩, ?_, fun id hid => ?_⟩
  · rw [TableStore.restart, hclose]
    exact hopen
  · rw [hall.indexFile, (hall.opened id id.mem_all).1]
    exact (hdisk.saved id).2
  · rw [hfd, (hall.opened id id.mem_all).1]
    exact hdisk.tables id
  · rw [hall.wal]
    show walOpen s₁.wal.file = _
    rw [hwal]
  · rw [(hall.opened id id.mem_all).1]
    exact hindexed id hid

/-- A record of `booking_seats` without a key stops the restart. -/
theorem StoreHolds.restart_fails (h : StoreHolds n s T)
    (hothers : ∀ id, id ≠ .bookingSeats → Stamped id (T id) ∧ Dense (T id))
    (hbad : (T .bookingSeats).rows.foldl (openStep .bookingSeats) (some 0) = none) {n' : Nat} (hn : 0 < n')
    (hn' : n' < 2 ^ 30) {fd' : TableId → Int} (hfd' : Function.Injective fd') :
    s.restart n' fd' = none := by
  obtain ⟨s₁, mem, pages, index, hclose, hdisk, -⟩ := h.stop hn' hfd'
  have hfirst : Starting n' (s₁.boot n' fd') T mem pages index [] (s₁.boot n' fd') :=
    ⟨rfl, rfl, rfl, hdisk.cached, fun id hid => absurd hid List.not_mem_nil⟩
  -- the tables before it open
  have hnext : ∀ opened id rest s', [TableId.users, .events, .seats, .bookings] = opened ++ id :: rest →
      Starting n' (s₁.boot n' fd') T mem pages index opened s' →
      ∃ s'', s'.openTable id = some s'' ∧
        Starting n' (s₁.boot n' fd') T mem pages index (opened ++ [id]) s'' := by
    intro opened id rest s' hlist hstarting
    have hmem : id ∈ [TableId.users, .events, .seats, .bookings] := by
      rw [hlist]
      exact List.mem_append_right _ List.mem_cons_self
    obtain ⟨hkeys, hdense⟩ := hothers id (by rintro rfl; exact absurd hmem (by decide))
    exact hstarting.open hn hn' (hdisk.tables id) (h.next id).2 hkeys hdense (hdisk.files id)
  obtain ⟨s₂, hopen, hall⟩ := foldlM_invariant _ hnext hfirst
  have hrefused := hall.open_fails hn hn' (hdisk.tables .bookingSeats) (h.next .bookingSeats).2 hbad
    (hdisk.files .bookingSeats)
  rw [TableStore.restart, hclose, Option.bind_some,
    show TableId.all = [.users, .events, .seats, .bookings] ++ [.bookingSeats] from rfl, List.foldlM_append,
    hopen]
  show (s₂.openTable .bookingSeats).bind _ = none
  rw [hrefused, Option.bind_none]

end Store

end Ticketing
